import Mathlib
import HclEditor.Proofs.Document.Editing
import HclEditor.Proofs.Document.RoundTrip
import HclEditor.Proofs.Literal.Coercion

/-!
# Numbers that are set and read again

What is read back from a layout has the nodes of the document at the same paths, and the same
literals in them. So a literal that was set is found again where it was put if it is one token of
its kind, and otherwise nothing that can be read holds it. For numbers this is decided by the
text that they are given as.
-/

namespace HclEditor

/-- The second node is read back from the layout of the first. -/
inductive Node.ReadBack : Node → Node → Prop where
  | document {body again : Body} (hbody : body.ReadBack again) :
      Node.ReadBack (.document body) (.document again)
  | item {above : Option Item} {entry again : Item} (hitem : entry.ReadBack above again) :
      Node.ReadBack (.item entry) (.item again)
  | element {value again : Value} (hvalue : value.ReadBack again) (comments : Comments) :
      Node.ReadBack (.element ⟨value, comments⟩) (.element ⟨again, comments.withoutReturns⟩)

section ReadBack

variable {index : Nat}

theorem Item.AllReadBack.exists_getElem? {above : Option Item} {items again : List Item}
    (hagain : Item.AllReadBack above items again) {entry : Item}
    (hentry : items[index]? = some entry) :
    ∃ above other, again[index]? = some other ∧ entry.ReadBack above other := by
  induction items generalizing above again index with
  | nil => cases hentry
  | cons item items ih =>
      cases hagain with
      | cons hitem hitems =>
          cases index with
          | zero =>
              cases hentry
              exact ⟨_, _, rfl, hitem⟩
          | succ index =>
              obtain ⟨above, other, hother, hback⟩ := ih hitems hentry
              exact ⟨above, other, hother, hback⟩

theorem Element.AllReadBack.exists_getElem? {elements again : List Element}
    (hagain : Element.AllReadBack elements again) {entry : Element}
    (hentry : elements[index]? = some entry) :
    ∃ other, again[index]? = some other ∧ (Node.element entry).ReadBack (.element other) := by
  induction elements generalizing again index with
  | nil => cases hentry
  | cons element elements ih =>
      cases hagain with
      | cons hvalue comments helements =>
          cases index with
          | zero =>
              cases hentry
              exact ⟨_, rfl, .element hvalue comments⟩
          | succ index =>
              obtain ⟨other, hother, hback⟩ := ih helements hentry
              exact ⟨other, hother, hback⟩

theorem Value.ReadBack.exists_node {value again : Value} (hagain : value.ReadBack again)
    {node : Node} (hnode : value.nodes[index]? = some node) :
    ∃ other, again.nodes[index]? = some other ∧ node.ReadBack other := by
  cases hagain with
  | literal scalar => cases hnode
  | object hbody =>
      cases hbody with
      | mk hitems =>
          rw [nodes, List.getElem?_map, Option.map_eq_some_iff] at hnode
          obtain ⟨entry, hentry, rfl⟩ := hnode
          obtain ⟨above, other, hother, hback⟩ := hitems.exists_getElem? hentry
          exact ⟨.item other, by rw [nodes, List.getElem?_map, hother]; rfl, .item hback⟩
  | list hlist =>
      cases hlist with
      | mk helements =>
          rw [nodes, List.getElem?_map, Option.map_eq_some_iff] at hnode
          obtain ⟨entry, hentry, rfl⟩ := hnode
          obtain ⟨other, hother, hback⟩ := helements.exists_getElem? hentry
          exact ⟨.element other, by rw [nodes, List.getElem?_map, hother]; rfl, hback⟩

theorem Item.ReadBack.value_readBack {above : Option Item} {entry again : Item}
    (hagain : entry.ReadBack above again) : entry.value.ReadBack again.value := by
  cases hagain with
  | mk hvalue => exact hvalue

theorem Node.ReadBack.value_readBack {node again : Node} (hagain : node.ReadBack again) :
    node.value.ReadBack again.value := by
  cases hagain with
  | document hbody => exact .object hbody
  | item hitem => exact hitem.value_readBack
  | element hvalue => exact hvalue

/-- A document that is read back has the nodes of the document at the same paths. -/
theorem Node.ReadBack.exists_node? {node again : Node} (hagain : node.ReadBack again)
    {path : List Nat} {child : Node} (hchild : node.node? path = some child) :
    ∃ other, again.node? path = some other ∧ child.ReadBack other := by
  induction path generalizing node again with
  | nil =>
      cases hchild
      exact ⟨again, rfl, hagain⟩
  | cons index path ih =>
      rw [node?_cons, Option.bind_eq_some_iff] at hchild
      obtain ⟨next, hnext, hchild⟩ := hchild
      obtain ⟨other, hother, hback⟩ := hagain.value_readBack.exists_node hnext
      obtain ⟨found, hfound, hback⟩ := ih hback hchild
      refine ⟨found, ?_, hback⟩
      rw [node?_cons, children, hother]
      exact hfound

end ReadBack

/-- What holds of all parts of a node holds of those of the nodes below it. -/
theorem Node.forall_parts_node? {P : Part → Prop} {node child : Node}
    (hparts : ∀ part ∈ node.parts, P part) {path : List Nat}
    (hchild : node.node? path = some child) : ∀ part ∈ child.parts, P part := by
  induction path generalizing node with
  | nil =>
      cases hchild
      exact hparts
  | cons index path ih =>
      rw [node?_cons, Option.bind_eq_some_iff] at hchild
      obtain ⟨next, hnext, hchild⟩ := hchild
      have hbelow := (Value.forall_parts.mp (Node.forall_parts_value hparts)).1
      exact ih (hbelow next (List.mem_of_getElem? hnext)) hchild

namespace Document

variable {source : String} {document : Document} {literal : Literal}

/-- A literal that is one token leaves a document sound where it is set. -/
theorem sound_set (hparse : Document.parse source = .ok document)
    (hspells : (TokenKind.literal literal.kind).Spells literal.text) (query : Query)
    (strict : Bool) : ∀ part ∈ (document.set query strict literal).1.body.parts, part.Sound := by
  have hedits : Relation.ReflTransGen
      (Edits fun literal => (TokenKind.literal literal.kind).Spells literal.text) document
      (document.set query strict literal).1 := .single ⟨query, strict, literal, hspells, rfl⟩
  have hspelled : ∀ part ∈ (document.set query strict literal).1.body.parts, part.Spelled :=
    forall_parts_of_edits (fun _ hliteral => Part.keeps_spelled hliteral) hedits
      fun part hpart => (sound_of_parse hparse part hpart).spelled
  exact fun part hpart => sound_of_edits hparse hedits part hpart (hspelled part hpart)

/-- The item at the end of the path holds the literal. -/
def Holds (document : Document) (path : List Nat) (literal : Literal) : Prop :=
  ∃ entry, document.root.node? path = some (.item entry) ∧ entry.value = .literal literal

/-- Every literal of a document that was read is one token of its kind. -/
theorem Holds.spells {path : List Nat} (hholds : document.Holds path literal)
    (hparse : Document.parse source = .ok document) :
    (TokenKind.literal literal.kind).Spells literal.text := by
  obtain ⟨entry, hentry, hvalue⟩ := hholds
  have hdocument : ∀ part ∈ document.root.parts, part.Sound := sound_of_parse hparse
  have hsound : ∀ part ∈ (Node.item entry).parts, part.Sound :=
    Node.forall_parts_node? hdocument hentry
  have hvalueSound := (Item.forall_parts.mp hsound).2.2.2.1
  rw [hvalue] at hvalueSound
  exact hvalueSound (.literal literal) (List.mem_singleton_self _)

theorem Holds.readBack {path : List Nat} (hholds : document.Holds path literal)
    {again : Document} (hagain : document.body.ReadBack again.body) : again.Holds path literal := by
  obtain ⟨entry, hentry, hvalue⟩ := hholds
  obtain ⟨other, hother, hback⟩ := (Node.ReadBack.document hagain).exists_node? hentry
  cases hback with
  | @item _ _ found hitem =>
      have hfound := hitem.value_readBack
      rw [hvalue] at hfound
      refine ⟨found, hother, ?_⟩
      generalize found.value = value at hfound
      cases hfound
      rfl

/-- A selected item holds what was set. -/
theorem holds_set {query : Query} {path : List Nat}
    (hselected : document.root.SelectedAt query [] path) (strict : Bool) :
    (document.set query strict literal).1.Holds path literal := by
  obtain ⟨entry, -, hreplaced⟩ :=
    Node.node?_replaced_of_selectedAt literal query.misses_nil hselected
  rw [query.remaining_nil, ← root_set query strict, Item.withValue_literal] at hreplaced
  exact ⟨_, hreplaced, rfl⟩

/-- Read again from either layout, a selected item holds the literal that was set exactly if
the literal is one token of its kind. -/
theorem exists_holds_iff_spells (hparse : Document.parse source = .ok document) {query : Query}
    {path : List Nat} (hselected : document.root.SelectedAt query [] path) (strict : Bool)
    (halone : ∀ part ∈ (document.set query strict literal).1.body.parts, part.HeredocAlone)
    (indent : Nat) {text : String}
    (htext : text = (document.set query strict literal).1.layout indent ∨
      text = (document.set query strict literal).1.render indent) :
    (∃ again, Document.parse text = .ok again ∧ again.Holds path literal) ↔
      (TokenKind.literal literal.kind).Spells literal.text := by
  constructor
  · rintro ⟨again, hagain, hholds⟩
    exact hholds.spells hagain
  · intro hspells
    have hsound := sound_set hparse hspells query strict
    obtain ⟨again, hagain, hback⟩ : ∃ again, Document.parse text = .ok again ∧
        (document.set query strict literal).1.body.ReadBack again.body := by
      rcases htext with rfl | rfl
      · exact parse_layout hsound halone indent
      · exact parse_render hsound halone indent
    exact ⟨again, hagain, (holds_set hselected strict).readBack hback⟩

/-- A number that is accepted as an integer or a float is written as a single token of its own
kind, and found again in every item that it is set on, exactly if the text that it is given as
can be read back. -/
theorem exists_holds_iff_readsBack {type : ValueType} {raw : String}
    (htype : type = .int ∨ type = .float) (hcoerce : Literal.coerce type raw = .ok literal) :
    ((TokenKind.literal literal.kind).Spells literal.text ↔
        Literal.ReadsBack type raw.toList) ∧
      ∀ (source : String) (document : Document), Document.parse source = .ok document →
        ∀ (query : Query) (strict : Bool) (path : List Nat),
          document.root.SelectedAt query [] path →
            let after := (document.set query strict literal).1
            (∀ part ∈ after.body.parts, part.HeredocAlone) →
              ∀ (indent : Nat) (text : String),
                (text = after.layout indent ∨ text = after.render indent) →
                  ((∃ again, Document.parse text = .ok again ∧ again.Holds path literal) ↔
                    Literal.ReadsBack type raw.toList) := by
  have hspells := Literal.spells_iff_readsBack htype hcoerce
  refine ⟨hspells, ?_⟩
  intro source document hparse query strict path hselected after halone indent text htext
  rw [← hspells]
  exact exists_holds_iff_spells hparse hselected strict halone indent htext

/-- A list in a block becomes a float with a sign and an exponent. -/
theorem exists_holds_iff_readsBack_block : ∃ document literal,
    Document.parse "b \x7b a = [1] # c\n\x7d\n" = .ok document ∧
      Literal.coerce .float "-1.5e+3" = .ok literal ∧
        ∃ again, Document.parse
            ((document.set ⟨[.named "b"], "a"⟩ true literal).1.render 4) = .ok again ∧
          again.Holds [0, 0] literal := by
  obtain ⟨literal, hcoerce, hspells⟩ := Except.exists_of_map (x := Literal.coerce .float "-1.5e+3")
    (p := fun literal => decide ((TokenKind.literal literal.kind).Spells literal.text ∧
      literal = ⟨.float, "-1.5e+3"⟩)) (by decide +kernel)
  obtain ⟨hspells, rfl⟩ := of_decide_eq_true hspells
  obtain ⟨hiff, hholds⟩ := exists_holds_iff_readsBack (.inr rfl) hcoerce
  let query : Query := ⟨[.named "b"], "a"⟩
  obtain ⟨document, hparse, hdocument⟩ := Except.exists_of_map
    (x := Document.parse "b \x7b a = [1] # c\n\x7d\n")
    (p := fun document =>
      ((document.root.node? [0, 0]).any fun node => node.entered.any fun entry =>
        decide (query.Selects ⟨document.root.around [0, 0], entry⟩)) &&
      (document.set query true ⟨.float, "-1.5e+3"⟩).1.body.parts.all fun part =>
        decide part.HeredocAlone) (by decide +kernel)
  rw [Bool.and_eq_true, Option.any_eq_true] at hdocument
  obtain ⟨⟨node, hnode, hselects⟩, halone⟩ := hdocument
  have hselected : document.root.SelectedAt query [] [0, 0] := by
    cases node with
    | item entry => exact ⟨entry, hnode, by simpa [Node.entered] using hselects⟩
    | _ => cases hselects
  refine ⟨document, _, hparse, hcoerce, ?_⟩
  refine (hholds _ document hparse query true [0, 0] hselected ?_ 4 _ (.inr rfl)).mpr
    (hiff.mp hspells)
  exact fun part hpart => of_decide_eq_true (List.all_eq_true.mp halone part hpart)

/-- An integer with a plus sign is accepted, but it is not one token. -/
theorem not_forall_spells_of_coerce : ¬ ∀ (type : ValueType) (raw : String) (literal : Literal),
    type = .int ∨ type = .float → Literal.coerce type raw = .ok literal →
      (TokenKind.literal literal.kind).Spells literal.text := by
  intro hall
  have hcoerce : Literal.coerce .int "+5" = .ok ⟨.number, "+5"⟩ := by decide +kernel
  have hspells := hall .int "+5" _ (.inl rfl) hcoerce
  exact absurd hspells (by decide +kernel)

end Document

end HclEditor
