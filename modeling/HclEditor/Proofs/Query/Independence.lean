import Mathlib
import HclEditor.Document.Assembly
import HclEditor.Proofs.Outcome
import HclEditor.Proofs.Query.Lens

/-!
# Queries that do not meet

Two queries do not meet if nothing that one of them addresses is equal to, inside or around
anything that the other addresses. Following both from the root down, one of them ends only
where the other addresses nothing any more. So replacing values for one of them changes
neither what the other addresses nor the items that it finds there, and the order of two
replacements does not matter.
-/

namespace HclEditor

namespace Node

/-- Following two queries into a node and on into the nodes below it, one of them ends only
at nodes at which the other addresses nothing. -/
inductive Apart : Query → Query → Node → Prop where
  | first {first second : Query} {node : Node} (hinto : first.into node = none)
      (hnone : node.addressed second = []) : Apart first second node
  | second {first second : Query} {node : Node} (hinto : second.into node = none)
      (hnone : node.addressed first = []) : Apart first second node
  | inside {first second inner other : Query} {node : Node}
      (hfirst : first.into node = some inner) (hsecond : second.into node = some other)
      (hchildren : ∀ child ∈ node.children, Apart inner other child) : Apart first second node

/-- A query that addresses nothing at a node is followed into the node. -/
theorem exists_into_of_addressed_eq_nil {query : Query} {node : Node}
    (hnone : node.addressed query = []) : ∃ inner, query.into node = some inner := by
  cases hinto : query.into node with
  | none =>
      obtain ⟨entry, -, haddressed, -⟩ := exists_item_of_into_eq_none hinto
      rw [haddressed] at hnone
      cases hnone
  | some inner => exact ⟨inner, rfl⟩

/-- Where a query addresses nothing there is nothing to replace. -/
theorem replaced_eq_self {query : Query} {node : Node} (hnone : node.addressed query = [])
    (literal : Literal) : node.replaced query literal = node := by
  induction node using Node.induction generalizing query with
  | node node ih =>
      obtain ⟨inner, hinto⟩ := exists_into_of_addressed_eq_nil hnone
      rw [addressed_eq hinto, List.flatMap_eq_nil_iff] at hnone
      apply eq_of_shell_eq (shell_replaced hinto literal)
      rw [children_replaced hinto]
      refine (List.map_congr_left fun child hchild => ?_).trans (List.map_id _)
      exact ih child hchild (hnone child hchild)

namespace Apart

variable {first second : Query} {node : Node}

/-- A replacement for one query leaves the other one the items that it addresses. -/
theorem addressed_replaced (hapart : Apart first second node) (literal : Literal) :
    (node.replaced first literal).addressed second = node.addressed second := by
  induction hapart with
  | @first first second node hinto hnone =>
      -- Nothing is below the literal, and the item itself is not addressed as before.
      obtain ⟨inner, hinner⟩ := exists_into_of_addressed_eq_nil hnone
      obtain ⟨entry, -, -, hreplaced⟩ := exists_item_of_into_eq_none hinto
      have hchildren : (node.replaced first literal).children = [] := by
        rw [hreplaced]
        rfl
      rw [addressed_eq ((second.into_replaced first literal node).trans hinner), hchildren, hnone,
        List.flatMap_nil]
  | second hinto hnone => rw [replaced_eq_self hnone]
  | @inside first second inner other node hfirst hsecond hchildren ih =>
      rw [addressed_eq ((second.into_replaced first literal node).trans hsecond),
        addressed_eq hsecond, children_replaced hfirst, List.flatMap_map]
      exact List.flatMap_congr ih

theorem symm (hapart : Apart first second node) : Apart second first node := by
  induction hapart with
  | first hinto hnone => exact .second hinto hnone
  | second hinto hnone => exact .first hinto hnone
  | inside hfirst hsecond _ ih => exact .inside hsecond hfirst ih

/-- Replacements for both queries may change places. -/
theorem replaced_comm (hapart : Apart first second node) (one two : Literal) :
    (node.replaced first one).replaced second two =
      (node.replaced second two).replaced first one := by
  induction hapart with
  | @first first second node hinto hnone =>
      have hagain := (Apart.first hinto hnone).addressed_replaced one
      rw [replaced_eq_self hnone, replaced_eq_self (hagain.trans hnone)]
  | @second first second node hinto hnone =>
      have hagain := (Apart.second hinto hnone).symm.addressed_replaced two
      rw [replaced_eq_self hnone, replaced_eq_self (hagain.trans hnone)]
  | @inside first second inner other node hfirst hsecond hchildren ih =>
      have hsecond' := (second.into_replaced first one node).trans hsecond
      have hfirst' := (first.into_replaced second two node).trans hfirst
      apply eq_of_shell_eq
      · rw [shell_replaced hsecond', shell_replaced hfirst, shell_replaced hfirst',
          shell_replaced hsecond]
      · rw [children_replaced hsecond', children_replaced hfirst, children_replaced hfirst',
          children_replaced hsecond, List.map_map, List.map_map]
        exact List.map_congr_left ih

end Apart

section Paths

variable {query first second : Query} {node : Node} {around : List Item}

/-- Nothing is inside a scalar. -/
theorem eq_of_isLiteral_of_prefix {one two : Item} (hliteral : one.value.isLiteral = true)
    {path other : List Nat} (hone : node.node? path = some (.item one)) (hbegins : path <+: other)
    (htwo : node.node? other = some (.item two)) : one = two := by
  obtain ⟨rest, rfl⟩ := hbegins
  rw [node?_append, hone, Option.bind_some] at htwo
  cases rest with
  | nil => simpa using htwo
  | cons index rest =>
      obtain ⟨keys, value, assigned, comments, blankBefore, span⟩ := one
      cases value with
      | literal scalar => simp [children, Node.value, Value.nodes] at htwo
      | _ => cases hliteral

/-- An item at the end of a path to a selected item is one that the query addresses. -/
theorem mem_addressed_of_selectedAt (hmisses : query.Misses around) {path : List Nat}
    (hpath : node.SelectedAt query around path) {entry : Item}
    (hentry : node.node? path = some (.item entry)) :
    entry ∈ node.addressed (query.remaining around) := by
  obtain ⟨paths, -, hmem, hmap⟩ := exists_paths_selectedAt query node around hmisses
  have hnode : node.node? path ∈ paths.map fun path => node.node? path :=
    List.mem_map_of_mem ((hmem path).mpr hpath)
  rw [hmap, hentry, List.mem_map] at hnode
  obtain ⟨other, hother, heq⟩ := hnode
  obtain rfl : other = entry := by simpa using heq
  exact hother

theorem addressed_remaining_eq_nil (hmisses : query.Misses around)
    (hnone : ∀ path, ¬ node.SelectedAt query around path) :
    node.addressed (query.remaining around) = [] := by
  obtain ⟨paths, -, hmem, hmap⟩ := exists_paths_selectedAt query node around hmisses
  have hpaths : paths = [] := List.eq_nil_iff_forall_not_mem.mpr fun path hpath =>
    hnone path ((hmem path).mp hpath)
  rw [hpaths, List.map_nil] at hmap
  exact List.map_eq_nil_iff.mp hmap.symm

/-- Queries that do not meet are apart. -/
theorem apart_of_paths (hfirst : first.Misses around) (hsecond : second.Misses around)
    (hpaths : ∀ path other, node.SelectedAt first around path →
      node.SelectedAt second around other → ¬ path <+: other ∧ ¬ other <+: path) :
    Apart (first.remaining around) (second.remaining around) node := by
  induction node using Node.induction generalizing around with
  | node node ih =>
      by_cases hone : node.SelectedAt first around []
      · apply Apart.first ((into_remaining_eq_none_iff hfirst).mpr hone)
        apply addressed_remaining_eq_nil hsecond
        intro other hother
        exact (hpaths [] other hone hother).1 List.nil_prefix
      by_cases htwo : node.SelectedAt second around []
      · apply Apart.second ((into_remaining_eq_none_iff hsecond).mpr htwo)
        apply addressed_remaining_eq_nil hfirst
        intro path hpath
        exact (hpaths path [] hpath htwo).2 List.nil_prefix
      obtain ⟨hinner, hfirst⟩ := into_remaining hfirst hone
      obtain ⟨hother, hsecond⟩ := into_remaining hsecond htwo
      refine .inside hinner hother ?_
      intro child hchild
      obtain ⟨index, hindex⟩ := List.mem_iff_getElem?.mp hchild
      apply ih child hchild hfirst hsecond
      intro path other hpath hother
      have hbelow := hpaths (index :: path) (index :: other)
        ((selectedAt_cons hindex path).mpr hpath) ((selectedAt_cons hindex other).mpr hother)
      simpa only [List.cons_prefix_cons, true_and] using hbelow

end Paths

end Node

namespace Document

/-- Two queries do not meet in the document: no item that one of them selects is equal to,
inside or around an item that the other selects. -/
def Unrelated (document : Document) (first second : Query) : Prop :=
  ∀ path other, document.root.SelectedAt first [] path → document.root.SelectedAt second [] other →
    ¬ path <+: other ∧ ¬ other <+: path

variable {document : Document} {first second : Query}

theorem Unrelated.apart (hunrelated : document.Unrelated first second) :
    Node.Apart first second document.root :=
  Node.apart_of_paths first.misses_nil second.misses_nil hunrelated

/-- Queries for different keys do not meet if they select nothing but scalars. -/
theorem unrelated_of_scalars (htargets : first.target ≠ second.target)
    (hfirst : ∀ entry ∈ document.body.addressed first, entry.value.isLiteral = true)
    (hsecond : ∀ entry ∈ document.body.addressed second, entry.value.isLiteral = true) :
    document.Unrelated first second := by
  intro path other hpath hother
  obtain ⟨one, hone, ⟨hkey, -⟩, -⟩ := id hpath
  obtain ⟨two, htwo, ⟨hkey', -⟩, -⟩ := id hother
  have hne : one ≠ two := by
    rintro rfl
    rw [hkey] at hkey'
    exact htargets (List.singleton_inj.mp hkey')
  have hone' := hfirst one (Node.mem_addressed_of_selectedAt first.misses_nil hpath hone)
  have htwo' := hsecond two (Node.mem_addressed_of_selectedAt second.misses_nil hother htwo)
  constructor
  · intro hbegins
    exact hne (Node.eq_of_isLiteral_of_prefix hone' hone hbegins htwo)
  · intro hbegins
    exact hne (Node.eq_of_isLiteral_of_prefix htwo' htwo hbegins hone).symm

/-- Setting values for two queries that do not meet gives the same document and the same
counts in either order, and values are read for one of them as if none had been set for the
other. -/
theorem set_comm_of_unrelated (hunrelated : document.Unrelated first second)
    (one two : Literal) :
    ∃ middle other last count number,
      document.set first false one = (middle, .ok count) ∧
      middle.set second false two = (last, .ok number) ∧
      document.set second false two = (other, .ok number) ∧
      other.set first false one = (last, .ok count) ∧
      ∀ strict sink, middle.get second strict sink = document.get second strict sink := by
  have hapart := hunrelated.apart
  have hsecond : (document.body.replaced first one).addressed second =
      document.body.addressed second := hapart.addressed_replaced one
  have hfirst : (document.body.replaced second two).addressed first =
      document.body.addressed first := hapart.symm.addressed_replaced two
  have hlast : (document.body.replaced first one).replaced second two =
      (document.body.replaced second two).replaced first one :=
    Node.document.inj (hapart.replaced_comm one two)
  refine ⟨{ document with body := document.body.replaced first one },
    { document with body := document.body.replaced second two },
    { document with body := (document.body.replaced first one).replaced second two },
    (document.body.addressed first).length, (document.body.addressed second).length,
    ?_, ?_, ?_, ?_, ?_⟩
  · simp [set_eq]
  · simp [set_eq, hsecond]
  · simp [set_eq]
  · simp [set_eq, hfirst, hlast]
  · intro strict sink
    rw [get, get, Body.get, Body.get, hsecond]

/-- One query's item is inside a block, the other one's are inside a list beside it. -/
theorem set_comm_of_unrelated_list : ∃ document,
    parse "a \x7b x = 1 \x7d\nb = [\x7b y = 2 \x7d, \x7b x = 3, y = 4 \x7d]\n" = .ok document ∧
      document.Unrelated ⟨[.named "a"], "x"⟩ ⟨[], "y"⟩ ∧
      ∃ middle other last,
        document.set ⟨[.named "a"], "x"⟩ false ⟨.number, "5"⟩ = (middle, .ok 1) ∧
        middle.set ⟨[], "y"⟩ false ⟨.bool, "true"⟩ = (last, .ok 2) ∧
        document.set ⟨[], "y"⟩ false ⟨.bool, "true"⟩ = (other, .ok 2) ∧
        other.set ⟨[.named "a"], "x"⟩ false ⟨.number, "5"⟩ = (last, .ok 1) := by
  obtain ⟨document, hparse, hdocument⟩ := Except.exists_of_map
    (x := parse "a \x7b x = 1 \x7d\nb = [\x7b y = 2 \x7d, \x7b x = 3, y = 4 \x7d]\n")
    (p := fun document =>
      let one := document.body.addressed ⟨[.named "a"], "x"⟩
      let two := document.body.addressed ⟨[], "y"⟩
      decide (one.length = 1 ∧ two.length = 2) &&
        (one ++ two).all fun entry => entry.value.isLiteral) (by decide +kernel)
  simp only [Bool.and_eq_true, decide_eq_true_eq, List.all_append, List.all_eq_true] at hdocument
  obtain ⟨⟨hone, htwo⟩, hscalars, hscalars'⟩ := hdocument
  have hunrelated : document.Unrelated ⟨[.named "a"], "x"⟩ ⟨[], "y"⟩ :=
    unrelated_of_scalars (by decide) hscalars hscalars'
  obtain ⟨middle, other, last, count, number, hmiddle, hlast, hother, hlast', -⟩ :=
    set_comm_of_unrelated hunrelated ⟨.number, "5"⟩ ⟨.bool, "true"⟩
  obtain rfl : count = 1 := by
    simpa [set_eq, hone, eq_comm] using congrArg Prod.snd hmiddle
  obtain rfl : number = 2 := by
    simpa [set_eq, htwo, eq_comm] using congrArg Prod.snd hother
  exact ⟨document, hparse, hunrelated, middle, other, last, hmiddle, hlast, hother, hlast'⟩

end Document

end HclEditor
