import Mathlib
import HclEditor.Proofs.Query.Embedding

/-!
# Reading the selected items

The outcome of a read in terms of the items that the query selects. An item without a
scalar outweighs everything else, and the first such item is reported; otherwise the
contents come out in document order, a line feed behind each.
-/

namespace HclEditor

namespace Item

/-- The scalar that the item holds, if it holds one. -/
def scalar? (item : Item) : Option Literal :=
  match item.value with
  | .literal scalar => some scalar
  | _ => none

theorem value_of_scalar? {item : Item} {scalar : Literal} (hscalar : item.scalar? = some scalar) :
    item.value = .literal scalar := by
  rw [scalar?] at hscalar
  split at hscalar
  · rwa [← Option.some.inj hscalar]
  · cases hscalar

theorem content_eq (item : Item) :
    item.content =
      match item.scalar? with
      | some scalar => .ok scalar.content
      | none => .error (.notScalar item.keyPath item.value.shape) := by
  rw [content, scalar?]
  cases item.value <;> rfl

/-- The contents of items are those of their scalars, unless an item holds none; then the
first such item is the error. -/
theorem mapM_content (items : List Item) :
    items.mapM content =
      match items.find? fun item => item.scalar?.isNone with
      | some item => .error (.notScalar item.keyPath item.value.shape)
      | none => .ok ((items.filterMap scalar?).map Literal.content) := by
  induction items with
  | nil => rfl
  | cons item items ih =>
      rw [List.mapM_cons, ih, content_eq, List.find?_cons, List.filterMap_cons]
      cases hscalar : item.scalar? with
      | none => rfl
      | some scalar =>
          rw [Option.isNone_some]
          cases items.find? fun item => item.scalar?.isNone <;> rfl

/-- If no item lacks a scalar, there are as many scalars as items. -/
theorem length_filterMap_scalar? {items : List Item}
    (hscalars : (items.find? fun item => item.scalar?.isNone) = none) :
    (items.filterMap scalar?).length = items.length := by
  rw [List.find?_eq_none] at hscalars
  rw [List.filterMap_length_eq_length]
  intro item hitem
  simpa [Option.isSome_iff_ne_none] using hscalars item hitem

end Item

namespace Text

theorem encode_append (first second : String) :
    encode (first ++ second) = encode first ++ encode second := by
  simp [encode]

/-- Every text put out is followed by a line feed, and by nothing else. -/
theorem encode_putLines (texts : List String) :
    encode (putLines texts) = texts.flatMap fun text => encode (text ++ "\n") := by
  induction texts with
  | nil => rfl
  | cons text texts ih =>
      rw [List.flatMap_cons, ← ih, ← encode_append]
      rfl

end Text

namespace Body

/-- A read without items that lack a scalar fails only if it is strict and there is no
item. -/
theorem get_eq (query : Query) (strict : Bool) (body : Body) :
    body.get query strict =
      match (body.addressed query).find? fun item => item.scalar?.isNone with
      | some item => .error (.notScalar item.keyPath item.value.shape)
      | none =>
          if (body.addressed query).isEmpty && strict then .error (.notFound query.display)
          else .ok (((body.addressed query).filterMap Item.scalar?).map Literal.content) := by
  rw [get, Item.mapM_content]
  cases hfind : (body.addressed query).find? fun item => item.scalar?.isNone with
  | some item => rfl
  | none =>
      have hempty : (((body.addressed query).filterMap Item.scalar?).map
          Literal.content).isEmpty = (body.addressed query).isEmpty := by
        rw [Bool.eq_iff_iff, List.isEmpty_iff_length_eq_zero, List.length_map,
          Item.length_filterMap_scalar? hfind, List.isEmpty_iff_length_eq_zero]
      change (if (_ && strict) = true then _ else _) = _
      rw [hempty]
      split <;> rfl

end Body

namespace Document

/-- Reading reports the first selected item without a scalar, or else that a strict query
selects nothing, or else puts out the contents of the selected items, each followed by a
line feed, and counts them. Only in the last case is anything put out. -/
theorem get_eq_selected (query : Query) (strict : Bool) (document : Document)
    (taken : Bytes) :
    document.get query strict { taken } =
      let selected := query.selected (document.body.placed [])
      match selected.find? fun item => item.scalar?.isNone with
      | some item => ({ taken }, .error (.notScalar item.keyPath item.value.shape))
      | none =>
          if selected.isEmpty && strict then ({ taken }, .error (.notFound query.display))
          else
            let contents := (selected.filterMap Item.scalar?).map Literal.content
            ({ taken := taken ++ contents.flatMap fun text => Text.encode (text ++ "\n") },
              .ok selected.length) := by
  rw [get, Body.get_eq, Body.addressed_eq_selected]
  dsimp only
  cases hfind :
      (query.selected (document.body.placed [])).find? fun item => item.scalar?.isNone with
  | some item => rfl
  | none =>
      cases (query.selected (document.body.placed [])).isEmpty && strict with
      | true => rfl
      | false =>
          have hlength := Item.length_filterMap_scalar? hfind
          simp only [Bool.false_eq_true, if_false, Sink.put, Text.encode_putLines,
            List.length_map, hlength, if_true]

end Document

end HclEditor
