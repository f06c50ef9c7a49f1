import Mathlib
import HclEditor.Proofs.Assembly.Derivation
import HclEditor.Proofs.Document.Node

/-!
# The tokens of each node

Every item and every list element of a document is read from tokens of its own. Those of the
nodes below it are among them, neither at their beginning nor at their end, and of two nodes that
lie apart the one that comes first in the document has the first tokens.
-/

namespace HclEditor

/-- The item is read from these tokens and the last one behind them: those that open it, and
those of its value. Its comments and the line in front of it are left out of account. -/
def Item.ReadFrom (tokens : List Token) (last : Token) (item : Item) : Prop :=
  ∃ head own body lastLine entry, tokens = head ++ own ∧
    OpenBody.Opens body lastLine head entry ∧ Value.ReadFrom own last item.value ∧
      (entry.assigned = true ∨ item.value.isObject = true) ∧
        item.keys = entry.keys.reverse ∧ item.assigned = entry.assigned ∧
          item.span = some ⟨entry.start, last.stop.offset⟩

namespace Node

/-- The node is read from these tokens and the last one behind them. -/
def ReadFrom (tokens : List Token) (last : Token) : Node → Prop
  | .document _ => False
  | .item entry => entry.ReadFrom tokens last
  | .element entry => Value.ReadFrom tokens last entry.value

/-- The nodes are read from tokens among these, each from some behind those of the ones before
it. -/
inductive AllReadFrom : List Token → List Node → Prop where
  | nil (tokens : List Token) : AllReadFrom tokens []
  | cons {own after : List Token} {last : Token} {node : Node} {nodes : List Node}
      (before : List Token) (hnode : node.ReadFrom own last) (hnodes : AllReadFrom after nodes) :
      AllReadFrom (before ++ (own ++ last :: after)) (node :: nodes)

namespace AllReadFrom

variable {tokens : List Token} {nodes : List Node}

theorem append_left (before : List Token) (hnodes : AllReadFrom tokens nodes) :
    AllReadFrom (before ++ tokens) nodes := by
  cases hnodes with
  | nil => exact .nil _
  | cons front hnode hnodes =>
      rw [← List.append_assoc]
      exact .cons _ hnode hnodes

theorem append {others : List Token} {more : List Node} (hnodes : AllReadFrom tokens nodes)
    (hmore : AllReadFrom others more) : AllReadFrom (tokens ++ others) (nodes ++ more) := by
  induction hnodes with
  | nil => exact hmore.append_left _
  | cons before hnode _ ih =>
      rw [List.append_assoc, List.append_assoc, List.cons_append]
      exact .cons before hnode ih

theorem append_right (hnodes : AllReadFrom tokens nodes) (after : List Token) :
    AllReadFrom (tokens ++ after) nodes := by
  have happend := hnodes.append (.nil after)
  rwa [List.append_nil] at happend

/-- What is read from the same tokens may take the place of each node. -/
theorem mono {others : List Node} (hnodes : AllReadFrom tokens nodes)
    (hothers : List.Forall₂ (fun node other => ∀ own last, node.ReadFrom own last →
      other.ReadFrom own last) nodes others) : AllReadFrom tokens others := by
  induction hothers generalizing tokens with
  | nil => exact .nil _
  | cons hother _ ih =>
      cases hnodes with
      | cons before hnode hnodes => exact .cons before (hother _ _ hnode) (ih hnodes)

theorem exists_of_getElem? (hnodes : AllReadFrom tokens nodes) {index : Nat} {node : Node}
    (hnode : nodes[index]? = some node) :
    ∃ before own last after, tokens = before ++ (own ++ last :: after) ∧
      node.ReadFrom own last := by
  induction hnodes generalizing index with
  | nil => cases hnode
  | @cons first _ stop _ _ before hfirst _ ih =>
      cases index with
      | zero =>
          cases hnode
          exact ⟨before, first, stop, _, rfl, hfirst⟩
      | succ index =>
          obtain ⟨front, own, last, after, rfl, hread⟩ := ih hnode
          exact ⟨before ++ (first ++ stop :: front), own, last, after, by simp, hread⟩

/-- The tokens of a node are in front of those of a later one. -/
theorem exists_of_lt (hnodes : AllReadFrom tokens nodes) {index later : Nat}
    (hlt : index < later) {node other : Node} (hnode : nodes[index]? = some node)
    (hother : nodes[later]? = some other) :
    ∃ before own last between own' last' after,
      tokens = before ++ (own ++ last :: (between ++ (own' ++ last' :: after))) ∧
        node.ReadFrom own last ∧ other.ReadFrom own' last' := by
  induction hnodes generalizing index later with
  | nil => cases hnode
  | @cons first _ stop _ _ before hfirst hnodes ih =>
      obtain ⟨later, rfl⟩ := Nat.exists_eq_add_one_of_ne_zero (Nat.ne_zero_of_lt hlt)
      cases index with
      | zero =>
          cases hnode
          obtain ⟨between, own', last', after, rfl, hread⟩ := hnodes.exists_of_getElem? hother
          exact ⟨before, first, stop, between, own', last', after, rfl, hfirst, hread⟩
      | succ index =>
          obtain ⟨front, own, last, between, own', last', after, rfl, hreads⟩ :=
            ih (Nat.lt_of_succ_lt_succ hlt) hnode hother
          exact ⟨before ++ (first ++ stop :: front), own, last, between, own', last', after,
            by simp, hreads⟩

end AllReadFrom

end Node

/-- The comments of an item do not decide from which tokens it is read. -/
theorem Item.ReadFrom.withComments {tokens : List Token} {last : Token} {item : Item}
    (hitem : item.ReadFrom tokens last) (comments : Comments) :
    Item.ReadFrom tokens last { item with comments } :=
  hitem

/-- A comment behind the last item leaves the items with their tokens. -/
theorem OpenBody.allReadFrom_comment {tokens : List Token} {body : OpenBody}
    (hbody : Node.AllReadFrom tokens (body.items.reverse.map .item)) (lastLine : Nat)
    (token : Token) :
    Node.AllReadFrom tokens ((body.comment lastLine token).items.reverse.map .item) := by
  unfold OpenBody.comment
  split
  next item items hitems =>
    split
    · refine hbody.mono ?_
      rw [hitems, List.reverse_cons, List.reverse_cons, List.map_append, List.map_append]
      refine List.rel_append ?_ ?_
      · exact List.forall₂_same.mpr fun _ _ _ _ => id
      · exact .cons (fun _ _ hitem => hitem.withComments _) .nil
    · exact hbody
  next => exact hbody

theorem OpenBody.ReadFrom.allReadFrom {line lastLine : Nat} {tokens : List Token}
    {body : OpenBody} (hbody : OpenBody.ReadFrom line tokens body lastLine) :
    Node.AllReadFrom tokens (body.items.reverse.map .item) := by
  induction hbody using OpenBody.ReadFrom.induction with
  | nil => exact .nil _
  | comment hbody hkind ih => exact (OpenBody.allReadFrom_comment ih _ _).append_right _
  | comma hbody hkind htrailing ih => exact ih.append_right _
  | @item tokens body lastLine head entry own last value hbody hopens hvalue htakes ih =>
      have hitem : Item.ReadFrom (head ++ own) last (entry.close value last.stop.offset) :=
        ⟨head, own, body, lastLine, entry, rfl, hopens, hvalue, htakes, rfl, rfl, rfl⟩
      have hnode : Node.AllReadFrom (head ++ own ++ [last])
          [.item (entry.close value last.stop.offset)] :=
        .cons [] hitem (.nil [])
      rw [push, List.reverse_cons, List.map_append]
      exact ih.append hnode

/-- So does a comment behind the last element. -/
theorem OpenList.allReadFrom_comment {tokens : List Token} {list : OpenList}
    (hlist : Node.AllReadFrom tokens (list.elements.reverse.map .element)) (token : Token) :
    Node.AllReadFrom tokens ((list.comment token).elements.reverse.map .element) := by
  unfold OpenList.comment
  split
  next element elements helements =>
    split
    · refine hlist.mono ?_
      rw [helements, List.reverse_cons, List.reverse_cons, List.map_append, List.map_append]
      refine List.rel_append ?_ ?_
      · exact List.forall₂_same.mpr fun _ _ _ _ => id
      · exact .cons (fun _ _ helement => helement) .nil
    · exact hlist
  next => exact hlist

theorem OpenList.ReadFrom.allReadFrom {tokens : List Token} {list : OpenList}
    (hlist : list.ReadFrom tokens) :
    Node.AllReadFrom tokens (list.elements.reverse.map .element) := by
  induction hlist using OpenList.ReadFrom.induction with
  | nil => exact .nil _
  | comment hlist hkind ih => exact (OpenList.allReadFrom_comment ih _).append_right _
  | comma hlist hkind hawaits ih => exact ih.append_right _
  | @element tokens list own last value hlist hawaits hvalue ih =>
      have hnode : Node.AllReadFrom (own ++ [last])
          [.element ⟨value, { lead := list.pending.reverse }⟩] :=
        .cons [] hvalue (.nil [])
      rw [OpenList.push, List.reverse_cons, List.map_append]
      exact ih.append hnode

/-- The items or elements in a value are read from tokens behind its first. -/
theorem Value.ReadFrom.nodes {own : List Token} {last : Token} {value : Value}
    (hvalue : Value.ReadFrom own last value) :
    value.nodes = [] ∨
      ∃ opening inside, own = opening :: inside ∧ Node.AllReadFrom inside value.nodes := by
  cases hvalue with
  | literal => exact .inl rfl
  | object hopening hbody hclosing => exact .inr ⟨_, _, rfl, hbody.allReadFrom⟩
  | list hopening hlist hclosing => exact .inr ⟨_, _, rfl, hlist.allReadFrom⟩

namespace Node

/-- The nodes directly below a node are read from tokens that are neither its first nor its
last. -/
theorem ReadFrom.children {own : List Token} {last : Token} {node : Node}
    (hnode : node.ReadFrom own last) :
    node.children = [] ∨
      ∃ before inside, before ≠ [] ∧ own = before ++ inside ∧ AllReadFrom inside node.children := by
  cases node with
  | document body => exact hnode.elim
  | item entry =>
      obtain ⟨head, value, -, -, -, rfl, -, hvalue, -⟩ := hnode
      refine hvalue.nodes.imp_right ?_
      rintro ⟨opening, inside, rfl, hinside⟩
      exact ⟨head ++ [opening], inside, by simp, by simp, hinside⟩
  | element entry =>
      refine (Value.ReadFrom.nodes hnode).imp_right ?_
      rintro ⟨opening, inside, rfl, hinside⟩
      exact ⟨[opening], inside, by simp, rfl, hinside⟩

/-- A node below is read from some of the tokens that the nodes directly below are read from. -/
theorem AllReadFrom.exists_of_node? {tokens : List Token} {node below : Node}
    (hnodes : AllReadFrom tokens node.children) {path : List Nat} (hpath : path ≠ [])
    (hbelow : node.node? path = some below) :
    ∃ before own last after, tokens = before ++ (own ++ last :: after) ∧
      below.ReadFrom own last := by
  induction path generalizing node tokens with
  | nil => exact absurd rfl hpath
  | cons index path ih =>
      rw [node?_cons, Option.bind_eq_some_iff] at hbelow
      obtain ⟨child, hchild, hbelow⟩ := hbelow
      obtain ⟨before, own, last, after, rfl, hread⟩ := hnodes.exists_of_getElem? hchild
      cases path with
      | nil =>
          cases hbelow
          exact ⟨before, own, last, after, rfl, hread⟩
      | cons next path =>
          rcases hread.children with hnone | ⟨opening, inside, -, rfl, hinside⟩
          · simp [hnone] at hbelow
          · obtain ⟨front, own', last', behind, rfl, hread'⟩ :=
              ih hinside (List.cons_ne_nil _ _) hbelow
            exact ⟨before ++ (opening ++ front), own', last', behind ++ last :: after, by simp,
              hread'⟩

/-- A node below is read from tokens of its own among those of the node. -/
theorem ReadFrom.exists_of_node? {own : List Token} {last : Token} {node below : Node}
    (hnode : node.ReadFrom own last) {path : List Nat} (hbelow : node.node? path = some below) :
    ∃ before own' last' after, own ++ [last] = before ++ (own' ++ last' :: after) ∧
      below.ReadFrom own' last' ∧ (path ≠ [] → before ≠ [] ∧ after ≠ []) := by
  cases path with
  | nil =>
      cases hbelow
      exact ⟨[], own, last, [], rfl, hnode, by simp⟩
  | cons index path =>
      rcases hnode.children with hnone | ⟨opening, inside, hopening, rfl, hinside⟩
      · simp [hnone] at hbelow
      · obtain ⟨front, own', last', behind, rfl, hread⟩ :=
          hinside.exists_of_node? (List.cons_ne_nil _ _) hbelow
        exact ⟨opening ++ front, own', last', behind ++ [last], by simp, hread,
          by simp [hopening]⟩

/-- Of two nodes whose paths part, the first has the tokens in front. -/
theorem AllReadFrom.exists_of_paths {tokens : List Token} {node : Node}
    (hnodes : AllReadFrom tokens node.children) {trunk path path' : List Nat} {index later : Nat}
    (hlt : index < later) {first second : Node}
    (hfirst : node.node? (trunk ++ index :: path) = some first)
    (hsecond : node.node? (trunk ++ later :: path') = some second) :
    ∃ before own last between own' last' after,
      tokens = before ++ (own ++ last :: (between ++ (own' ++ last' :: after))) ∧
        first.ReadFrom own last ∧ second.ReadFrom own' last' := by
  induction trunk generalizing node tokens with
  | nil =>
      rw [List.nil_append, node?_cons, Option.bind_eq_some_iff] at hfirst hsecond
      obtain ⟨child, hchild, hfirst⟩ := hfirst
      obtain ⟨other, hother, hsecond⟩ := hsecond
      obtain ⟨before, own, last, between, own', last', after, rfl, hread, hread'⟩ :=
        hnodes.exists_of_lt hlt hchild hother
      obtain ⟨front, first, stop, behind, hown, hfirst, -⟩ := hread.exists_of_node? hfirst
      obtain ⟨front', first', stop', behind', hown', hsecond, -⟩ := hread'.exists_of_node? hsecond
      refine ⟨before ++ front, first, stop, behind ++ between ++ front', first', stop',
        behind' ++ after, ?_, hfirst, hsecond⟩
      rw [List.append_cons own last, hown, List.append_cons own' last', hown']
      simp
  | cons next trunk ih =>
      rw [List.cons_append, node?_cons, Option.bind_eq_some_iff] at hfirst hsecond
      obtain ⟨child, hchild, hfirst⟩ := hfirst
      obtain ⟨other, hother, hsecond⟩ := hsecond
      obtain rfl : child = other := Option.some.inj (hchild.symm.trans hother)
      obtain ⟨before, own, last, after, rfl, hread⟩ := hnodes.exists_of_getElem? hchild
      rcases hread.children with hnone | ⟨opening, inside, -, rfl, hinside⟩
      · cases trunk <;> simp [hnone] at hfirst
      · obtain ⟨front, own, last₁, between, own', last', behind, rfl, hreads⟩ :=
          ih hinside hfirst hsecond
        exact ⟨before ++ (opening ++ front), own, last₁, between, own', last',
          behind ++ last :: after, by simp, hreads⟩

end Node

/-- The items at the top of a document are read from the tokens of the source. -/
theorem Document.allReadFrom_of_parse {source : String} {document : Document}
    (hparse : Document.parse source = .ok document) :
    ∃ stream, TokenStream.scan source = .ok stream ∧
      Node.AllReadFrom stream.tokens document.root.children := by
  obtain ⟨stream, opened, lastLine, hscan, hrun, rfl⟩ := Document.parse_eq_ok.mp hparse
  exact ⟨stream, hscan, (OpenBody.readFrom_of_run hrun).allReadFrom⟩

end HclEditor
