import Mathlib
import HclEditor.Proofs.Document.Node
import HclEditor.Proofs.Query.Counting
import HclEditor.Proofs.Query.Embedding

/-!
# Replacing the selected values

Replacing the values that a query addresses and listing the addressed items are two walks
over a document. Both follow the query into a node in the same way, and change or list
what is below it child by child. So the new document is the old one except for the items
that the query selects, each of which holds the literal.
-/

namespace HclEditor

namespace Query

theorem addressedAmong_eq (query : Query) (items : List Item) :
    query.addressedAmong items = items.flatMap fun entry => entry.addressed query := by
  induction items with
  | nil => rfl
  | cons entry items ih => rw [addressedAmong, ih, List.flatMap_cons]

theorem addressedWithin_eq (query : Query) (elements : List Element) :
    query.addressedWithin elements =
      elements.flatMap fun entry => entry.value.addressed query := by
  induction elements with
  | nil => rfl
  | cons entry elements ih =>
      cases entry
      rw [addressedWithin, ih, List.flatMap_cons]

theorem replacedAmong_eq (query : Query) (literal : Literal) (items : List Item) :
    query.replacedAmong literal items = items.map fun entry => entry.replaced query literal := by
  induction items with
  | nil => rfl
  | cons entry items ih => rw [replacedAmong, ih, List.map_cons]

theorem replacedWithin_eq (query : Query) (literal : Literal) (elements : List Element) :
    query.replacedWithin literal elements = elements.map fun entry =>
      { entry with value := entry.value.replaced query literal } := by
  induction elements with
  | nil => rfl
  | cons entry elements ih =>
      cases entry
      rw [replacedWithin, ih, List.map_cons]

/-- Whether a query goes into an item depends on the item's keys. -/
theorem inside_congr (query : Query) {first second : Item} (hkeys : first.keys = second.keys) :
    query.inside first = query.inside second := by
  have hkey (name : String) : first.hasKey name = second.hasKey name := by
    rw [Item.hasKey, Item.hasKey, hkeys]
  have hpair (name label : String) :
      first.hasKeyPair name label = second.hasKeyPair name label := by
    rw [Item.hasKeyPair, Item.hasKeyPair, hkeys]
  have hfits (segment : Segment) : segment.fits first = segment.fits second := by
    cases segment with
    | named key => exact hkey key
    | labeled key label => exact hpair key label
  simp only [inside, hkey, hfits]

/-- The query to follow inside a node; nothing if the node is an item that it addresses. -/
def into (query : Query) : Node → Option Query
  | .item entry => query.inside entry
  | _ => some query

end Query

theorem Item.withValue_literal (entry : Item) (literal : Literal) :
    entry.withValue (.literal literal) =
      { entry with value := .literal literal, assigned := true } := by
  simp [withValue, Value.isObject]

theorem Item.addressed_eq (query : Query) (entry : Item) :
    entry.addressed query =
      match query.inside entry with
      | none => [entry]
      | some inner => entry.value.addressed inner := by
  cases entry
  unfold Item.addressed
  rfl

theorem Item.replaced_eq (query : Query) (literal : Literal) (entry : Item) :
    entry.replaced query literal =
      match query.inside entry with
      | none => entry.withValue (.literal literal)
      | some inner => { entry with value := entry.value.replaced inner literal } := by
  cases entry
  unfold Item.replaced
  rfl

namespace Node

/-- The items that a query addresses at a node and below it. -/
def addressed (query : Query) : Node → List Item
  | .document body => body.addressed query
  | .item entry => entry.addressed query
  | .element entry => entry.value.addressed query

/-- The node with a literal in place of the value of every addressed item. -/
def replaced (query : Query) (literal : Literal) : Node → Node
  | .document body => .document (body.replaced query literal)
  | .item entry => .item (entry.replaced query literal)
  | .element entry => .element { entry with value := entry.value.replaced query literal }

end Node

namespace Value

variable (query : Query) (literal : Literal)

theorem addressed_eq (value : Value) :
    value.addressed query = value.nodes.flatMap (Node.addressed query) := by
  cases value with
  | literal scalar => rfl
  | object body =>
      cases body
      rw [addressed, Body.addressed, Query.addressedAmong_eq, nodes, List.flatMap_map]
      rfl
  | list body =>
      cases body
      rw [addressed, ListBody.addressed, Query.addressedWithin_eq, nodes, List.flatMap_map]
      rfl

theorem nodes_replaced (value : Value) :
    (value.replaced query literal).nodes = value.nodes.map (Node.replaced query literal) := by
  cases value with
  | literal scalar => rfl
  | object body =>
      cases body
      rw [replaced, Body.replaced, Query.replacedAmong_eq, nodes, nodes, List.map_map,
        List.map_map]
      rfl
  | list body =>
      cases body
      rw [replaced, ListBody.replaced, Query.replacedWithin_eq, nodes, nodes, List.map_map,
        List.map_map]
      rfl

theorem shell_replaced (value : Value) : (value.replaced query literal).shell = value.shell := by
  cases value with
  | literal scalar => rfl
  | object body => cases body; rfl
  | list body => cases body; rfl

end Value

namespace Node

variable {query inner : Query} {node : Node}

/-- An addressed node is an item; replacing gives it the literal. -/
theorem exists_item_of_into_eq_none (hinto : query.into node = none) :
    ∃ entry, node = .item entry ∧ node.addressed query = [entry] ∧
      ∀ literal, node.replaced query literal = .item (entry.withValue (.literal literal)) := by
  cases node with
  | item entry =>
      have hinside : query.inside entry = none := hinto
      refine ⟨entry, rfl, ?_, ?_⟩
      · rw [addressed, Item.addressed_eq, hinside]
      · intro literal
        rw [replaced, Item.replaced_eq, hinside]
  | _ => cases hinto

theorem addressed_eq (hinto : query.into node = some inner) :
    node.addressed query = node.children.flatMap (addressed inner) := by
  cases node with
  | document body =>
      cases hinto
      exact Value.addressed_eq query (.object body)
  | item entry =>
      have hinside : query.inside entry = some inner := hinto
      rw [addressed, Item.addressed_eq, hinside]
      exact Value.addressed_eq inner entry.value
  | element entry =>
      cases hinto
      exact Value.addressed_eq query entry.value

theorem children_replaced (hinto : query.into node = some inner) (literal : Literal) :
    (node.replaced query literal).children = node.children.map (replaced inner literal) := by
  cases node with
  | document body =>
      cases hinto
      exact Value.nodes_replaced query literal (.object body)
  | item entry =>
      have hinside : query.inside entry = some inner := hinto
      rw [replaced, Item.replaced_eq, hinside]
      exact Value.nodes_replaced inner literal entry.value
  | element entry =>
      cases hinto
      exact Value.nodes_replaced query literal entry.value

theorem shell_replaced (hinto : query.into node = some inner) (literal : Literal) :
    (node.replaced query literal).shell = node.shell := by
  cases node with
  | document body => cases body; rfl
  | item entry =>
      have hinside : query.inside entry = some inner := hinto
      rw [replaced, Item.replaced_eq, hinside, shell, shell]
      simp only [Value.shell_replaced]
  | element entry =>
      rw [replaced, shell, shell]
      simp only [Value.shell_replaced]

/-- The query selects the item at the end of the path, if the node is inside the items. -/
def SelectedAt (query : Query) (around : List Item) (node : Node) (path : List Nat) : Prop :=
  ∃ entry, node.node? path = some (.item entry) ∧
    query.Selects ⟨around ++ node.around path, entry⟩

variable {around : List Item}

theorem selectedAt_nil :
    node.SelectedAt query around [] ↔
      ∃ entry, node = .item entry ∧ query.Selects ⟨around, entry⟩ := by
  simp [SelectedAt]

theorem selectedAt_cons {child : Node} {index : Nat} (hchild : node.children[index]? = some child)
    (path : List Nat) :
    node.SelectedAt query around (index :: path) ↔
      child.SelectedAt query (around ++ node.entered) path := by
  rw [SelectedAt, SelectedAt, node?_cons, hchild, Option.bind_some, around_cons hchild,
    List.append_assoc]

theorem exists_child_of_selectedAt {index : Nat} {path : List Nat}
    (hselected : node.SelectedAt query around (index :: path)) :
    ∃ child, node.children[index]? = some child ∧
      child.SelectedAt query (around ++ node.entered) path := by
  obtain ⟨entry, hentry, -⟩ := id hselected
  rw [node?_cons, Option.bind_eq_some_iff] at hentry
  obtain ⟨child, hchild, -⟩ := hentry
  exact ⟨child, hchild, (selectedAt_cons hchild path).mp hselected⟩

/-- Nothing inside a selected item is selected. -/
theorem SelectedAt.eq_nil (hselected : node.SelectedAt query around []) {path : List Nat}
    (hpath : node.SelectedAt query around path) : path = [] := by
  obtain ⟨entry, rfl, hembeds, -⟩ := selectedAt_nil.mp hselected
  cases path with
  | nil => rfl
  | cons index path =>
      obtain ⟨child, hchild, inner, -, -, hmisses⟩ := exists_child_of_selectedAt hpath
      refine absurd hembeds (hmisses around entry ?_)
      exact List.prefix_append _ _

/-- Following what is left of a query ends at the nodes that the query selects. -/
theorem into_remaining_eq_none_iff (hmisses : query.Misses around) :
    (query.remaining around).into node = none ↔ node.SelectedAt query around [] := by
  rw [selectedAt_nil]
  cases node with
  | item entry =>
      simp [Query.into, Query.inside_remaining, Query.Selects, hmisses]
  | _ => simp [Query.into]

/-- At any other node the query is followed further, with one more item around if the node
is one. -/
theorem into_remaining (hmisses : query.Misses around)
    (hselected : ¬ node.SelectedAt query around []) :
    (query.remaining around).into node = some (query.remaining (around ++ node.entered)) ∧
      query.Misses (around ++ node.entered) := by
  cases node with
  | item entry =>
      have hembeds : ¬ query.Embeds around entry := by
        intro hembeds
        exact hselected (selectedAt_nil.mpr ⟨entry, rfl, hembeds, hmisses⟩)
      refine ⟨?_, Query.misses_concat_iff.mpr ⟨hmisses, hembeds⟩⟩
      rw [Query.into, Query.inside_remaining, if_neg hembeds]
      rfl
  | _ => simpa [Query.into, entered] using hmisses

/-- A selected item receives the literal. -/
theorem node?_replaced_of_selectedAt (literal : Literal) (hmisses : query.Misses around)
    {path : List Nat} (hpath : node.SelectedAt query around path) :
    ∃ entry, node.node? path = some (.item entry) ∧
      (node.replaced (query.remaining around) literal).node? path =
        some (.item (entry.withValue (.literal literal))) := by
  induction path generalizing node around with
  | nil =>
      obtain ⟨entry, rfl, -, hreplaced⟩ :=
        exists_item_of_into_eq_none ((into_remaining_eq_none_iff hmisses).mpr hpath)
      exact ⟨entry, rfl, congrArg some (hreplaced literal)⟩
  | cons index path ih =>
      have hselected : ¬ node.SelectedAt query around [] := by
        intro hselected
        cases hselected.eq_nil hpath
      obtain ⟨hinto, hmisses⟩ := into_remaining hmisses hselected
      obtain ⟨child, hchild, hbelow⟩ := exists_child_of_selectedAt hpath
      rw [node?_cons, node?_cons, children_replaced hinto, List.getElem?_map, hchild]
      exact ih hmisses hbelow

/-- A node that is neither selected nor inside a selected item keeps its shell. -/
theorem shell_node?_replaced (literal : Literal) (hmisses : query.Misses around)
    {path : List Nat}
    (hpath : ∀ selected, node.SelectedAt query around selected → ¬ selected <+: path) :
    ((node.replaced (query.remaining around) literal).node? path).map shell =
      (node.node? path).map shell := by
  induction path generalizing node around with
  | nil =>
      have hselected : ¬ node.SelectedAt query around [] :=
        fun hselected => hpath [] hselected List.nil_prefix
      rw [node?_nil, node?_nil, Option.map_some, Option.map_some,
        shell_replaced (into_remaining hmisses hselected).1]
  | cons index path ih =>
      have hselected : ¬ node.SelectedAt query around [] :=
        fun hselected => hpath [] hselected List.nil_prefix
      obtain ⟨hinto, hmisses⟩ := into_remaining hmisses hselected
      rw [node?_cons, node?_cons, children_replaced hinto, List.getElem?_map]
      cases hchild : node.children[index]? with
      | none => rfl
      | some child =>
          apply ih hmisses
          intro selected hbelow hprefix
          apply hpath (index :: selected) ((selectedAt_cons hchild selected).mpr hbelow)
          exact List.cons_prefix_cons.mpr ⟨rfl, hprefix⟩

/-- Paths that start at the children of a node make paths that start at the node, the ones
through an earlier child first. -/
theorem exists_paths_of_children {P : Node → List Nat → Prop} {found : Node → List Item}
    (hchildren : ∀ child ∈ node.children, ∃ paths : List (List Nat), paths.Pairwise (· < ·) ∧
      (∀ path, path ∈ paths ↔ P child path) ∧
      paths.map (fun path => child.node? path) =
        (found child).map fun entry => some (.item entry)) :
    ∃ paths : List (List Nat), paths.Pairwise (· < ·) ∧
      (∀ path, path ∈ paths ↔ ∃ index below child, path = index :: below ∧
        node.children[index]? = some child ∧ P child below) ∧
      paths.map (fun path => node.node? path) =
        (node.children.flatMap found).map fun entry => some (.item entry) := by
  choose paths hsorted hmem hmap using fun index : Fin node.children.length =>
    hchildren node.children[index.val] (List.getElem_mem index.isLt)
  refine ⟨(List.finRange _).flatMap fun index => (paths index).map (index.val :: ·), ?_, ?_, ?_⟩
  · rw [List.pairwise_flatMap]
    constructor
    · intro index _
      simpa [List.pairwise_map] using hsorted index
    · apply (List.pairwise_lt_finRange _).imp
      intro first second hlt x hx y hy
      obtain ⟨x, -, rfl⟩ := List.mem_map.mp hx
      obtain ⟨y, -, rfl⟩ := List.mem_map.mp hy
      exact List.cons_lt_cons_iff.mpr (.inl hlt)
  · intro path
    rw [List.mem_flatMap]
    constructor
    · rintro ⟨index, -, hpath⟩
      obtain ⟨below, hbelow, rfl⟩ := List.mem_map.mp hpath
      exact ⟨index, below, _, rfl, List.getElem?_eq_getElem index.isLt,
        (hmem index below).mp hbelow⟩
    · rintro ⟨index, below, child, rfl, hchild, hbelow⟩
      obtain ⟨hindex, rfl⟩ := List.getElem?_eq_some_iff.mp hchild
      refine ⟨⟨index, hindex⟩, List.mem_finRange _, List.mem_map_of_mem ?_⟩
      exact (hmem ⟨index, hindex⟩ below).mpr hbelow
  · have hbelow (index : Fin node.children.length) :
        ((paths index).map (index.val :: ·)).map (fun path => node.node? path) =
          (found node.children[index.val]).map fun entry => some (.item entry) := by
      rw [← hmap index, List.map_map]
      apply List.map_congr_left
      intro below _
      simp
    conv_rhs => rw [← List.map_getElem_finRange node.children, List.flatMap_map]
    simp only [List.map_flatMap, hbelow]

/-- The addressed items stand at the ends of the paths to selected items, in document
order. -/
theorem exists_paths_selectedAt (query : Query) (node : Node) (around : List Item)
    (hmisses : query.Misses around) :
    ∃ paths : List (List Nat), paths.Pairwise (· < ·) ∧
      (∀ path, path ∈ paths ↔ node.SelectedAt query around path) ∧
      paths.map (fun path => node.node? path) =
        (node.addressed (query.remaining around)).map fun entry => some (.item entry) := by
  induction node using Node.induction generalizing around with
  | node node ih =>
      -- Below a selected node nothing is selected; below any other the paths are those that
      -- start at its children.
      by_cases hselected : node.SelectedAt query around []
      · obtain ⟨entry, hentry, haddressed, -⟩ :=
          exists_item_of_into_eq_none ((into_remaining_eq_none_iff hmisses).mpr hselected)
        refine ⟨[[]], List.pairwise_singleton _ _, ?_, ?_⟩
        · intro path
          rw [List.mem_singleton]
          constructor
          · rintro rfl
            exact hselected
          · exact hselected.eq_nil
        · rw [haddressed, List.map_singleton, List.map_singleton, node?_nil, hentry]
      · obtain ⟨hinto, hmisses⟩ := into_remaining hmisses hselected
        obtain ⟨paths, hsorted, hmem, hmap⟩ :=
          exists_paths_of_children fun child hchild => ih child hchild _ hmisses
        refine ⟨paths, hsorted, ?_, by rw [hmap, addressed_eq hinto]⟩
        intro path
        rw [hmem]
        constructor
        · rintro ⟨index, below, child, rfl, hchild, hbelow⟩
          exact (selectedAt_cons hchild below).mpr hbelow
        · intro hpath
          cases path with
          | nil => exact absurd hpath hselected
          | cons index below =>
              obtain ⟨child, hchild, hbelow⟩ := exists_child_of_selectedAt hpath
              exact ⟨index, below, child, rfl, hchild, hbelow⟩

end Node

namespace Document

/-- Setting values replaces them in the tree, whatever it is told about strictness. -/
theorem root_set (query : Query) (strict : Bool) (literal : Literal) (document : Document) :
    (document.set query strict literal).1.root = document.root.replaced query literal := by
  rw [set_eq]
  rfl

/-- The second document is the first, except that the items at the ends of the paths have
the literal as their value and are assignments. -/
structure Replaces (literal : Literal) (paths : List (List Nat)) (before after : Document) :
    Prop where
  selected : ∀ path ∈ paths, ∃ entry, before.root.node? path = some (.item entry) ∧
    after.root.node? path = some (.item { entry with value := .literal literal, assigned := true })
  elsewhere : ∀ path, (∀ selected ∈ paths, ¬ selected <+: path) →
    (after.root.node? path).map Node.shell = (before.root.node? path).map Node.shell
  source : after.source = before.source

theorem Replaces.unique {literal : Literal} {paths : List (List Nat)}
    {before after other : Document} (hafter : before.Replaces literal paths after)
    (hother : before.Replaces literal paths other) : after = other := by
  have hroot : after.root = other.root := by
    apply Node.ext_shell
    intro path
    -- Inside a replaced item both documents hold the literal, and elsewhere the old shells.
    by_cases hpath : ∃ selected ∈ paths, selected <+: path
    · obtain ⟨selected, hselected, below, rfl⟩ := hpath
      obtain ⟨entry, hentry, hnode⟩ := hafter.selected selected hselected
      obtain ⟨entry', hentry', hnode'⟩ := hother.selected selected hselected
      obtain rfl : entry = entry' := by simpa [hentry] using hentry'
      rw [Node.node?_append, Node.node?_append, hnode, hnode']
    · have houtside : ∀ selected ∈ paths, ¬ selected <+: path := by
        intro selected hselected hprefix
        exact hpath ⟨selected, hselected, hprefix⟩
      rw [hafter.elsewhere path houtside, hother.elsewhere path houtside]
  obtain ⟨body, source⟩ := after
  obtain ⟨body', source'⟩ := other
  obtain rfl := Node.document.inj hroot
  obtain rfl : source = source' := hafter.source.trans hother.source.symm
  rfl

/-- Setting the values that a query addresses always succeeds. It counts the selected items
and replaces their values, and nothing else. -/
theorem set_replaces_selected (query : Query) (literal : Literal) (document : Document) :
    ∃ paths : List (List Nat), paths.Pairwise (· < ·) ∧
      (∀ path, path ∈ paths ↔ document.root.SelectedAt query [] path) ∧
      (paths.map fun path => document.root.node? path) =
        (query.selected (document.body.placed [])).map (fun entry => some (.item entry)) ∧
      (document.set query false literal).2 = .ok paths.length ∧
      ∀ after, document.Replaces literal paths after ↔
        (document.set query false literal).1 = after := by
  have hmisses := query.misses_nil
  obtain ⟨paths, hsorted, hmem, hmap⟩ :=
    Node.exists_paths_selectedAt query document.root [] hmisses
  have hitems : document.root.addressed (query.remaining []) = document.body.addressed query := rfl
  have hafter : (document.set query false literal).1.root =
      document.root.replaced (query.remaining []) literal := by
    rw [query.remaining_nil, root_set]
  have hreplaces : document.Replaces literal paths (document.set query false literal).1 := by
    refine ⟨?_, ?_, by rw [set_eq]⟩
    · intro path hpath
      obtain ⟨entry, hentry, hreplaced⟩ :=
        Node.node?_replaced_of_selectedAt literal hmisses ((hmem path).mp hpath)
      exact ⟨entry, hentry, by rw [hafter, hreplaced, Item.withValue_literal]⟩
    · intro path hpath
      rw [hafter]
      apply Node.shell_node?_replaced literal hmisses
      intro selected hselected
      exact hpath selected ((hmem selected).mpr hselected)
  refine ⟨paths, hsorted, hmem, ?_, ?_, ?_⟩
  · rw [hmap, hitems, Body.addressed_eq_selected]
  · have hlength := congrArg List.length hmap
    rw [List.length_map, List.length_map, hitems] at hlength
    simp [set_eq, hlength]
  · intro after
    constructor
    · exact hreplaces.unique
    · rintro rfl
      exact hreplaces

end Document

end HclEditor
