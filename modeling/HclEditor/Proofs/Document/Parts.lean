import Mathlib
import HclEditor.Proofs.Layout.Pieces

/-!
# The parts of a document

The items, list elements, keys, literals and comments of a document, at every depth and in
the order in which they are written. A property of documents that says something of each
of them is a property of their parts.
-/

namespace HclEditor

namespace Value

/-- The value is a heredoc. -/
def isHeredoc : Value → Bool
  | .literal scalar => scalar.kind == .heredoc
  | _ => false

end Value

/-- A list that fits on a line has no comments and holds scalars other than heredocs. -/
theorem Layout.scalars_of_compactList? {list : ListBody} {text : String}
    (htext : compactList? list = some text) :
    list.dangling = [] ∧ ∀ element ∈ list.elements, element.value.isLiteral = true ∧
      element.value.isHeredoc = false ∧ element.comments = {} := by
  obtain ⟨hcomments, texts, htexts, -⟩ := compactList?_eq_some htext
  rw [ListBody.hasComments, Bool.or_eq_false_iff, List.any_eq_false] at hcomments
  refine ⟨by simpa using hcomments.1, ?_⟩
  intro element helement
  obtain ⟨text, htext⟩ := exists_compactText? htexts element helement
  obtain ⟨kind, hvalue, hkind⟩ := compactText?_eq_some htext
  refine ⟨by rw [hvalue]; rfl, ?_, ?_⟩
  · rw [hvalue]
    exact beq_false_of_ne hkind
  · have hnone := hcomments.2 element helement
    obtain ⟨value, ⟨lead, line⟩⟩ := element
    cases lead <;> cases line <;> simp_all

/-- Something that a document is made of. -/
inductive Part where
  | item (item : Item)
  | element (element : Element)
  | key (key : Key)
  | literal (literal : Literal)
  | comment (text : String)

theorem Body.eq_of_isEmpty {body : Body} (hempty : body.isEmpty = true) : body = ⟨[], []⟩ := by
  obtain ⟨items, dangling⟩ := body
  cases items <;> cases dangling <;> first | rfl | cases hempty

theorem ListBody.eq_of_isEmpty {list : ListBody} (hempty : list.isEmpty = true) :
    list = ⟨[], []⟩ := by
  obtain ⟨elements, dangling⟩ := list
  cases elements <;> cases dangling <;> first | rfl | cases hempty

mutual

/-- The parts of a value. -/
def Value.parts : Value → List Part
  | .literal literal => [.literal literal]
  | .object body => body.parts
  | .list list => list.parts

/-- The parts of a body. -/
def Body.parts : Body → List Part
  | ⟨items, dangling⟩ => Part.ofItems items ++ dangling.map .comment

/-- The parts of some items. -/
def Part.ofItems : List Item → List Part
  | [] => []
  | item :: items => item.parts ++ Part.ofItems items

/-- The item, and the parts of it. -/
def Item.parts : Item → List Part
  | ⟨keys, value, assigned, comments, blankBefore, span⟩ =>
      .item ⟨keys, value, assigned, comments, blankBefore, span⟩ ::
        (comments.lead.map .comment ++ keys.map .key ++ value.parts ++
          comments.line.toList.map .comment)

/-- The parts of a list. -/
def ListBody.parts : ListBody → List Part
  | ⟨elements, dangling⟩ => Part.ofElements elements ++ dangling.map .comment

/-- The parts of some elements. -/
def Part.ofElements : List Element → List Part
  | [] => []
  | element :: elements => element.parts ++ Part.ofElements elements

/-- The element, and the parts of it. -/
def Element.parts : Element → List Part
  | ⟨value, comments⟩ =>
      .element ⟨value, comments⟩ ::
        (comments.lead.map .comment ++ value.parts ++ comments.line.toList.map .comment)

end

section Quantified

variable {P : Part → Prop}

theorem Part.forall_ofItems {items : List Item} :
    (∀ part ∈ Part.ofItems items, P part) ↔ ∀ item ∈ items, ∀ part ∈ item.parts, P part := by
  induction items with
  | nil => simp [Part.ofItems]
  | cons item items ih => simp only [Part.ofItems, List.forall_mem_append, ih, List.forall_mem_cons]

theorem Body.forall_parts {body : Body} :
    (∀ part ∈ body.parts, P part) ↔
      (∀ item ∈ body.items, ∀ part ∈ item.parts, P part) ∧
        ∀ text ∈ body.dangling, P (.comment text) := by
  obtain ⟨items, dangling⟩ := body
  simp only [Body.parts, List.forall_mem_append, List.forall_mem_map, Part.forall_ofItems]

theorem Item.forall_parts {item : Item} :
    (∀ part ∈ item.parts, P part) ↔
      P (.item item) ∧ (∀ text ∈ item.comments.lead, P (.comment text)) ∧
        (∀ key ∈ item.keys, P (.key key)) ∧ (∀ part ∈ item.value.parts, P part) ∧
        ∀ text ∈ item.comments.line, P (.comment text) := by
  obtain ⟨keys, value, assigned, comments, blankBefore, span⟩ := item
  simp only [Item.parts, List.forall_mem_cons, List.forall_mem_append, List.forall_mem_map,
    Option.mem_toList, Option.mem_def, and_assoc]

theorem Part.forall_ofElements {elements : List Element} :
    (∀ part ∈ Part.ofElements elements, P part) ↔
      ∀ element ∈ elements, ∀ part ∈ element.parts, P part := by
  induction elements with
  | nil => simp [Part.ofElements]
  | cons element elements ih =>
      simp only [Part.ofElements, List.forall_mem_append, ih, List.forall_mem_cons]

theorem Element.forall_parts {element : Element} :
    (∀ part ∈ element.parts, P part) ↔
      P (.element element) ∧ (∀ text ∈ element.comments.lead, P (.comment text)) ∧
        (∀ part ∈ element.value.parts, P part) ∧
        ∀ text ∈ element.comments.line, P (.comment text) := by
  obtain ⟨value, comments⟩ := element
  simp only [Element.parts, List.forall_mem_cons, List.forall_mem_append, List.forall_mem_map,
    Option.mem_toList, Option.mem_def, and_assoc]

theorem ListBody.forall_parts {list : ListBody} :
    (∀ part ∈ list.parts, P part) ↔
      (∀ element ∈ list.elements, ∀ part ∈ element.parts, P part) ∧
        ∀ text ∈ list.dangling, P (.comment text) := by
  obtain ⟨elements, dangling⟩ := list
  simp only [ListBody.parts, List.forall_mem_append, List.forall_mem_map, Part.forall_ofElements]

end Quantified

namespace Part

/-- What every part of a document that was read from a source is like: keys, literals and
comments are spelled as tokens, items have keys, and those without `=` hold an object. A
comment may end with a carriage return, which is not its own if it stands alone. -/
def Sound : Part → Prop
  | .item entry => entry.keys ≠ [] ∧ (entry.assigned = false → entry.value.isObject = true)
  | .element _ => True
  | .key name => name.kind.tokenKind.Spells name.text
  | .literal scalar => (TokenKind.literal scalar.kind).Spells scalar.text
  | .comment text => TokenKind.comment.Reads text ['\r']

/-- Nothing is laid out behind a heredoc on its closing line: it is no list element, and
the item that holds it has no comment there. -/
def HeredocAlone : Part → Prop
  | .item entry => entry.value.isHeredoc = true → entry.comments.line = none
  | .element entry => entry.value.isHeredoc = false
  | _ => True

/-- What can be laid out so that a reader, or only a lax one, reads it again. -/
def Rereadable (lax : Prop) (part : Part) : Prop :=
  part.Sound ∧ (part.HeredocAlone ∨ lax)

/-- The part is no comment that ends with a carriage return. -/
def Returnless : Part → Prop
  | .comment text => text.toList.getLast? ≠ some '\r'
  | _ => True

/-- A literal is one token of its kind when it is scanned alone. -/
def Spelled : Part → Prop
  | .literal scalar => (TokenKind.literal scalar.kind).Spells scalar.text
  | _ => True

/-- What can be printed and read back: keys, literals and comments are each spelled as one
token of their kind, items have keys, those without `=` hold an object, and nothing is
laid out behind a heredoc on its closing line. -/
def Printable : Part → Prop
  | .item entry => entry.keys ≠ [] ∧ (entry.assigned = false → entry.value.isObject = true) ∧
      (entry.value.isHeredoc = true → entry.comments.line = none)
  | .element entry => entry.value.isHeredoc = false
  | .key name => name.kind.tokenKind.Spells name.text
  | .literal scalar => (TokenKind.literal scalar.kind).Spells scalar.text
  | .comment text => TokenKind.comment.Spells text

instance : (part : Part) → Decidable part.HeredocAlone
  | .item entry =>
      inferInstanceAs (Decidable (entry.value.isHeredoc = true → entry.comments.line = none))
  | .element entry => inferInstanceAs (Decidable (entry.value.isHeredoc = false))
  | .key _ => inferInstanceAs (Decidable True)
  | .literal _ => inferInstanceAs (Decidable True)
  | .comment _ => inferInstanceAs (Decidable True)

instance : (part : Part) → Decidable part.Returnless
  | .comment text => inferInstanceAs (Decidable (text.toList.getLast? ≠ some '\r'))
  | .item _ => inferInstanceAs (Decidable True)
  | .element _ => inferInstanceAs (Decidable True)
  | .key _ => inferInstanceAs (Decidable True)
  | .literal _ => inferInstanceAs (Decidable True)

instance : (part : Part) → Decidable part.Spelled
  | .literal scalar =>
      inferInstanceAs (Decidable ((TokenKind.literal scalar.kind).Spells scalar.text))
  | .item _ => inferInstanceAs (Decidable True)
  | .element _ => inferInstanceAs (Decidable True)
  | .key _ => inferInstanceAs (Decidable True)
  | .comment _ => inferInstanceAs (Decidable True)

instance : (part : Part) → Decidable part.Printable
  | .item entry => inferInstanceAs (Decidable (entry.keys ≠ [] ∧
      (entry.assigned = false → entry.value.isObject = true) ∧
      (entry.value.isHeredoc = true → entry.comments.line = none)))
  | .element entry => inferInstanceAs (Decidable (entry.value.isHeredoc = false))
  | .key name => inferInstanceAs (Decidable (name.kind.tokenKind.Spells name.text))
  | .literal scalar =>
      inferInstanceAs (Decidable ((TokenKind.literal scalar.kind).Spells scalar.text))
  | .comment text => inferInstanceAs (Decidable (TokenKind.comment.Spells text))

end Part

namespace TokenKind

/-- A token that ends with a carriage return has more in front of it. -/
theorem exists_of_getLast? {c : Char} {cs : List Char} (hgap : Lexeme.isGap c = false)
    (hlast : (c :: cs).getLast? = some '\r') : ∃ own, cs = own ++ ['\r'] := by
  cases hcs : cs.getLast? with
  | none =>
      rw [List.getLast?_eq_none_iff.mp hcs, List.getLast?_singleton, Option.some.injEq] at hlast
      rw [hlast] at hgap
      cases hgap
  | some d =>
      rw [List.getLast?_cons, hcs, Option.getD_some, Option.some.injEq] at hlast
      obtain ⟨own, hown⟩ := List.getLast?_eq_some_iff.mp hcs
      exact ⟨own, hlast ▸ hown⟩

/-- A comment in front of a carriage return leaves one at its own end out if another line
follows. -/
theorem Reads.withoutReturn {text : String} (hreads : TokenKind.comment.Reads text ['\r'])
    (hlast : text.toList.getLast? = some '\r') {more : List Char}
    (hmore : Lexeme.AtLineEnd more) :
    TokenKind.comment.Reads (Layout.withoutReturn text) ('\r' :: more) := by
  obtain ⟨c, cs, htext, hgap, hread⟩ := hreads
  rw [htext] at hlast
  obtain ⟨own, rfl⟩ := exists_of_getLast? hgap hlast
  rw [List.append_assoc, List.length_append] at hread
  refine ⟨c, own, ?_, hgap, Lexeme.read_comment_return hread hmore⟩
  rw [Layout.withoutReturn, htext, if_pos hlast, String.toList_ofList, ← List.cons_append,
    List.dropLast_concat]

/-- A comment that stands alone does not end with a carriage return. -/
theorem Spells.getLast?_ne {text : String} (hspells : TokenKind.comment.Spells text) :
    text.toList.getLast? ≠ some '\r' := by
  obtain ⟨c, cs, htext, hgap, hread⟩ := spells_iff_reads.mp hspells
  intro hlast
  rw [htext] at hlast
  obtain ⟨own, rfl⟩ := exists_of_getLast? hgap hlast
  rw [List.append_nil, List.length_append] at hread
  exact Lexeme.read_comment_ne_return own hread

end TokenKind

namespace Part

theorem Printable.sound {part : Part} (hpart : part.Printable) : part.Sound := by
  cases part with
  | item entry => exact ⟨hpart.1, hpart.2.1⟩
  | element entry => trivial
  | key name => exact hpart
  | literal scalar => exact hpart
  | comment text =>
      have hreads := TokenKind.spells_iff_reads.mp hpart
      exact hreads.of_endsBefore (Or.inr ⟨[], rfl, Lexeme.startsIn_nil _⟩)

theorem Sound.spelled {part : Part} (hpart : part.Sound) : part.Spelled := by
  cases part with
  | literal scalar => exact hpart
  | _ => trivial

theorem Sound.comment_ne_empty {text : String} (hcomment : (Part.comment text).Sound) :
    text.isEmpty = false := by
  obtain ⟨c, cs, htext, -⟩ := hcomment
  rw [Bool.eq_false_iff]
  intro hempty
  rw [String.isEmpty_iff] at hempty
  rw [hempty] at htext
  cases htext

theorem Printable.heredocAlone {part : Part} (hpart : part.Printable) : part.HeredocAlone := by
  cases part with
  | item entry => exact hpart.2.2
  | element entry => exact hpart
  | key name => trivial
  | literal scalar => trivial
  | comment text => trivial

theorem Printable.returnless {part : Part} (hpart : part.Printable) : part.Returnless := by
  cases part with
  | comment text => exact TokenKind.Spells.getLast?_ne hpart
  | _ => trivial

end Part

/-- Every part of the document can be printed and read back. -/
def Document.Printable (document : Document) : Prop :=
  ∀ part ∈ document.body.parts, part.Printable

instance (document : Document) : Decidable document.Printable :=
  inferInstanceAs (Decidable (∀ part ∈ document.body.parts, part.Printable))

end HclEditor
