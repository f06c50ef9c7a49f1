import Mathlib
import HclEditor.Query.Edit
import HclEditor.Proofs.Assembly.Soundness
import HclEditor.Proofs.Query.Replacement

/-!
# Editing keeps documents printable

Setting a value gives an item another literal and touches nothing else. What holds of every
part of a document and of the literals that are set still holds of every part after any
number of edits, so the keys, literals and comments of an edited document are spelled as
tokens, like those of the source it was read from.
-/

namespace HclEditor

namespace Value

/-- The parts of a value that are in none of its nodes. -/
def looseParts : Value → List Part
  | .literal scalar => [.literal scalar]
  | .object body => body.dangling.map .comment
  | .list body => body.dangling.map .comment

end Value

namespace Node

/-- The parts of a node. -/
def parts : Node → List Part
  | .document body => body.parts
  | .item entry => entry.parts
  | .element entry => entry.parts

end Node

theorem Value.forall_parts {P : Part → Prop} {value : Value} :
    (∀ part ∈ value.parts, P part) ↔
      (∀ node ∈ value.nodes, ∀ part ∈ node.parts, P part) ∧
        ∀ part ∈ value.looseParts, P part := by
  cases value with
  | literal scalar => simp [parts, nodes, looseParts]
  | object body => simp [parts, nodes, looseParts, Node.parts, Body.forall_parts]
  | list body => simp [parts, nodes, looseParts, Node.parts, ListBody.forall_parts]

namespace Value

variable {first second : Value} (hshell : first.shell = second.shell)
include hshell

theorem isObject_eq_of_shell_eq : first.isObject = second.isObject := by
  cases first <;> cases second <;> first | rfl | cases hshell

theorem looseParts_eq_of_shell_eq : first.looseParts = second.looseParts := by
  cases first <;> cases second <;> simp_all [shell, looseParts]

end Value

namespace Part

/-- What is kept of a part when values of items are set to the literal: an item around
them, and a list element, has another value of the same shell. -/
structure Keeps (literal : Literal) (P : Part → Prop) : Prop where
  scalar : P (.literal literal)
  item : ∀ entry : Item, P (.item entry) → P (.item (entry.withValue (.literal literal)))
  aroundItem : ∀ (entry : Item) (value : Value), value.shell = entry.value.shell →
    P (.item entry) → P (.item { entry with value })
  aroundElement : ∀ (entry : Element) (value : Value), value.shell = entry.value.shell →
    P (.element entry) → P (.element { entry with value })

end Part

/-- What holds of all parts of a node holds of those of its value. -/
theorem Node.forall_parts_value {P : Part → Prop} {node : Node}
    (hparts : ∀ part ∈ node.parts, P part) : ∀ part ∈ node.value.parts, P part := by
  cases node with
  | document body => exact hparts
  | item entry => exact (Item.forall_parts.mp hparts).2.2.2.1
  | element entry => exact (Element.forall_parts.mp hparts).2.2.1

/-- What holds of all parts of a node holds of the items that a query addresses in it. -/
theorem Node.forall_addressed {P : Part → Prop} (query : Query) {node : Node}
    (hparts : ∀ part ∈ node.parts, P part) : ∀ entry ∈ node.addressed query, P (.item entry) := by
  induction node using Node.induction generalizing query with
  | node node ih =>
      cases hinto : query.into node with
      | none =>
          obtain ⟨item, rfl, haddressed, -⟩ := exists_item_of_into_eq_none hinto
          rw [haddressed, List.forall_mem_singleton]
          exact (Item.forall_parts.mp hparts).1
      | some inner =>
          have hvalue := (Value.forall_parts.mp (Node.forall_parts_value hparts)).1
          rw [addressed_eq hinto]
          intro entry hentry
          obtain ⟨child, hchild, hentry⟩ := List.mem_flatMap.mp hentry
          exact ih child hchild inner (hvalue child hchild) entry hentry

section Replaced

variable {P : Part → Prop} {literal : Literal}

/-- What holds of the parts of a value is kept inside it if it is kept in its nodes. -/
theorem Value.forall_parts_replaced {query : Query} {value : Value}
    (hnodes : ∀ node ∈ value.nodes, (∀ part ∈ node.parts, P part) →
      ∀ part ∈ (node.replaced query literal).parts, P part)
    (hparts : ∀ part ∈ value.parts, P part) :
    ∀ part ∈ (value.replaced query literal).parts, P part := by
  obtain ⟨hinside, hloose⟩ := Value.forall_parts.mp hparts
  refine Value.forall_parts.mpr ⟨?_, ?_⟩
  · rw [Value.nodes_replaced, List.forall_mem_map]
    exact fun node hnode => hnodes node hnode (hinside node hnode)
  · rwa [Value.looseParts_eq_of_shell_eq (value.shell_replaced query literal)]

theorem Node.forall_parts_replaced (hkeeps : Part.Keeps literal P) (query : Query) {node : Node}
    (hparts : ∀ part ∈ node.parts, P part) :
    ∀ part ∈ (node.replaced query literal).parts, P part := by
  induction node using Node.induction generalizing query with
  | node node ih =>
      have hvalue (inner : Query) : (∀ part ∈ node.value.parts, P part) →
          ∀ part ∈ (node.value.replaced inner literal).parts, P part :=
        Value.forall_parts_replaced fun child hchild => ih child hchild inner
      cases node with
      | document body => exact hvalue query hparts
      | item entry =>
          obtain ⟨hitem, hlead, hkeys, hinner, hline⟩ := Item.forall_parts.mp hparts
          rw [Node.replaced, Item.replaced_eq]
          split
          · exact Item.forall_parts.mpr ⟨hkeeps.item entry hitem, hlead, hkeys,
              List.forall_mem_singleton.mpr hkeeps.scalar, hline⟩
          next inner _ =>
            exact Item.forall_parts.mpr ⟨hkeeps.aroundItem entry _
              (entry.value.shell_replaced inner literal) hitem, hlead, hkeys,
              hvalue inner hinner, hline⟩
      | element entry =>
          obtain ⟨helement, hlead, hinner, hline⟩ := Element.forall_parts.mp hparts
          exact Element.forall_parts.mpr ⟨hkeeps.aroundElement entry _
            (entry.value.shell_replaced query literal) helement, hlead, hvalue query hinner, hline⟩

end Replaced

namespace Document

/-- The second document is the first one after one edit: some query's values are set to a
literal that is allowed. -/
def Edits (allowed : Literal → Prop) (before after : Document) : Prop :=
  ∃ query strict literal, allowed literal ∧ after = (before.set query strict literal).1

/-- What every edit keeps of the parts of a document is kept by any number of edits. -/
theorem forall_parts_of_edits {allowed : Literal → Prop} {P : Part → Prop}
    (hkeeps : ∀ literal, allowed literal → Part.Keeps literal P) {first last : Document}
    (hedits : Relation.ReflTransGen (Edits allowed) first last)
    (hparts : ∀ part ∈ first.body.parts, P part) : ∀ part ∈ last.body.parts, P part := by
  induction hedits with
  | refl => exact hparts
  | @tail document _ _ hedit ih =>
      obtain ⟨query, strict, literal, hliteral, rfl⟩ := hedit
      have hbefore : ∀ part ∈ document.root.parts, P part := ih
      have hafter := Node.forall_parts_replaced (hkeeps literal hliteral) query hbefore
      rw [← root_set query strict] at hafter
      exact hafter

end Document

namespace Part

theorem keeps_spelled {literal : Literal} (hliteral : (Part.literal literal).Spelled) :
    Keeps literal Part.Spelled where
  scalar := hliteral
  item _ _ := trivial
  aroundItem _ _ _ _ := trivial
  aroundElement _ _ _ _ := trivial

/-- Whatever literal is set, it is all that may be wrong with the document. -/
theorem keeps_sound (literal : Literal) :
    Keeps literal fun part => part.Spelled → part.Sound where
  scalar := id
  item := by
    intro entry hentry _
    obtain ⟨hkeys, -⟩ := hentry trivial
    refine ⟨hkeys, ?_⟩
    rw [Item.withValue_literal]
    exact fun hassigned => absurd hassigned (by simp)
  aroundItem := by
    intro entry value hshell hentry _
    obtain ⟨hkeys, hobject⟩ := hentry trivial
    exact ⟨hkeys, fun hassigned =>
      (Value.isObject_eq_of_shell_eq hshell).trans (hobject hassigned)⟩
  aroundElement _ _ _ _ _ := trivial

/-- A key, a literal or a comment is one token of its kind when it is scanned alone, unless
it is a comment that ends with a carriage return; an item has a key, and if it has no `=`
then it holds an object. -/
def StandsAlone : Part → Prop
  | .item entry => entry.keys ≠ [] ∧ (entry.assigned = false → entry.value.isObject = true)
  | .element _ => True
  | .key name => name.kind.tokenKind.Spells name.text
  | .literal scalar => (TokenKind.literal scalar.kind).Spells scalar.text
  | .comment text => text.toList.getLast? ≠ some '\r' → TokenKind.comment.Spells text

theorem Sound.standsAlone {part : Part} (hpart : part.Sound) : part.StandsAlone := by
  cases part with
  | comment text =>
      intro hlast
      exact TokenKind.spells_iff_reads.mpr
        (TokenKind.Reads.of_endsBefore hpart (.inl ⟨Lexeme.startsIn_nil _, hlast⟩))
  | _ => exact hpart

end Part

namespace Document

/-- After any edits every part is sound unless it is a literal that is not spelled as one. -/
theorem sound_of_edits {allowed : Literal → Prop} {source : String} {first last : Document}
    (hparse : Document.parse source = .ok first)
    (hedits : Relation.ReflTransGen (Edits allowed) first last) :
    ∀ part ∈ last.body.parts, part.Spelled → part.Sound :=
  forall_parts_of_edits (fun literal _ => Part.keeps_sound literal) hedits
    fun part hpart _ => sound_of_parse hparse part hpart

/-- After any edits that set literals which are one token of their kind when scanned alone,
the document that was read from a source is still made of such tokens at every depth. -/
theorem standsAlone_of_edits {source : String} {first last : Document}
    (hparse : Document.parse source = .ok first)
    (hedits : Relation.ReflTransGen
      (Edits fun literal => (TokenKind.literal literal.kind).Spells literal.text) first last) :
    ∀ part ∈ last.body.parts, part.StandsAlone := by
  have hspelled := forall_parts_of_edits (fun _ hliteral => Part.keeps_spelled hliteral) hedits
    fun part hpart => (sound_of_parse hparse part hpart).spelled
  intro part hpart
  exact (sound_of_edits hparse hedits part hpart (hspelled part hpart)).standsAlone

/-- A list becomes a number, and then the block around it a heredoc. -/
theorem standsAlone_of_edits_block : ∃ first,
    Document.parse "a = 1 // x\nb \x7b c = [-0x2, \"$\x7bd\x7d\"] \x7d\n" = .ok first ∧
      let last := ((first.set ⟨[.named "b"], "c"⟩ false ⟨.float, "1.5e3"⟩).1.set ⟨[], "b"⟩ true
        ⟨.heredoc, "<<E\nx\n E "⟩).1
      ∀ part ∈ last.body.parts, part.StandsAlone := by
  obtain ⟨first, hparse, -⟩ := Except.exists_of_map
    (x := Document.parse "a = 1 // x\nb \x7b c = [-0x2, \"$\x7bd\x7d\"] \x7d\n")
    (p := fun _ => true) (by decide +kernel)
  have hfloat : (TokenKind.literal .float).Spells "1.5e3" := by decide +kernel
  have hheredoc : (TokenKind.literal .heredoc).Spells "<<E\nx\n E " := by decide +kernel
  refine ⟨first, hparse, standsAlone_of_edits hparse ?_⟩
  exact .tail (.single ⟨_, _, ⟨.float, "1.5e3"⟩, hfloat, rfl⟩) ⟨_, _, ⟨.heredoc, _⟩, hheredoc, rfl⟩

end Document

end HclEditor
