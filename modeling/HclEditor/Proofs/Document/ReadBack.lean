import Mathlib
import HclEditor.Proofs.Document.Parts

/-!
# Documents that are read back

Reading the layout of a document gives the document again, except that every item that the
layout sets apart now follows a blank line, the first of a body follows none, and comments
have lost the carriage returns at their ends.
-/

namespace HclEditor

namespace Item

/-- A blank line is laid out between the two items. -/
def setApart (above below : Item) : Bool :=
  below.blankBefore || above.value.isObject || below.value.isObject

end Item

theorem Layout.separator_eq (above below : Item) :
    separator above below = if above.setApart below then "\n\n" else "\n" :=
  rfl

namespace Comments

/-- The comments without the carriage returns at their ends. -/
def withoutReturns (comments : Comments) : Comments :=
  ⟨comments.lead.map Layout.withoutReturn, comments.line.map Layout.withoutReturn⟩

end Comments

mutual

/-- The second value is read back from the layout of the first. -/
inductive Value.ReadBack : Value → Value → Prop where
  | literal (literal : Literal) : Value.ReadBack (.literal literal) (.literal literal)
  | object {body again : Body} (hbody : Body.ReadBack body again) :
      Value.ReadBack (.object body) (.object again)
  | list {list again : ListBody} (hlist : ListBody.ReadBack list again) :
      Value.ReadBack (.list list) (.list again)

/-- The second body is read back from the layout of the first. -/
inductive Body.ReadBack : Body → Body → Prop where
  | mk {items again : List Item} (hitems : Item.AllReadBack none items again)
      (dangling : List String) :
      Body.ReadBack ⟨items, dangling⟩ ⟨again, dangling.map Layout.withoutReturn⟩

/-- The items of a body are read back, the first of them from below `above`. -/
inductive Item.AllReadBack : Option Item → List Item → List Item → Prop where
  | nil (above : Option Item) : Item.AllReadBack above [] []
  | cons {above : Option Item} {item again : Item} {items others : List Item}
      (hitem : Item.ReadBack above item again)
      (hitems : Item.AllReadBack (some item) items others) :
      Item.AllReadBack above (item :: items) (again :: others)

/-- The second item is read back from the layout of the first below `above`. -/
inductive Item.ReadBack : Option Item → Item → Item → Prop where
  | mk {value again : Value} (hvalue : Value.ReadBack value again) (above : Option Item)
      (keys : List Key) (assigned : Bool) (comments : Comments) (blankBefore : Bool)
      (span span' : Option Span) :
      Item.ReadBack above ⟨keys, value, assigned, comments, blankBefore, span⟩
        ⟨keys, again, assigned, comments.withoutReturns,
          above.any (·.setApart ⟨keys, value, assigned, comments, blankBefore, span⟩), span'⟩

/-- The second list is read back from the layout of the first. -/
inductive ListBody.ReadBack : ListBody → ListBody → Prop where
  | mk {elements again : List Element} (helements : Element.AllReadBack elements again)
      (dangling : List String) :
      ListBody.ReadBack ⟨elements, dangling⟩ ⟨again, dangling.map Layout.withoutReturn⟩

/-- The elements of a list are read back. -/
inductive Element.AllReadBack : List Element → List Element → Prop where
  | nil : Element.AllReadBack [] []
  | cons {value again : Value} (hvalue : Value.ReadBack value again) (comments : Comments)
      {elements others : List Element} (helements : Element.AllReadBack elements others) :
      Element.AllReadBack (⟨value, comments⟩ :: elements)
        (⟨again, comments.withoutReturns⟩ :: others)

end

mutual

/-- The value without what its reader records of the source beside the contents. -/
def Value.plain : Value → Value
  | .literal literal => .literal literal
  | .object body => .object body.plain
  | .list list => .list list.plain

/-- The body without spans, and without the blank lines in front of its items. -/
def Body.plain : Body → Body
  | ⟨items, dangling⟩ => ⟨Item.plainAll items, dangling⟩

/-- The items without spans and blank lines. -/
def Item.plainAll : List Item → List Item
  | [] => []
  | item :: items => item.plain :: Item.plainAll items

/-- The item without its span and the blank line in front of it. -/
def Item.plain : Item → Item
  | ⟨keys, value, assigned, comments, _, _⟩ => ⟨keys, value.plain, assigned, comments, false, none⟩

/-- The list without the spans and blank lines inside it. -/
def ListBody.plain : ListBody → ListBody
  | ⟨elements, dangling⟩ => ⟨Element.plainAll elements, dangling⟩

/-- The elements without the spans and blank lines inside them. -/
def Element.plainAll : List Element → List Element
  | [] => []
  | ⟨value, comments⟩ :: elements => ⟨value.plain, comments⟩ :: Element.plainAll elements

end

theorem Value.ReadBack.isObject_eq {value again : Value} (hagain : value.ReadBack again) :
    again.isObject = value.isObject := by
  cases hagain <;> rfl

namespace Part

theorem withoutReturn_eq_iff {text : String} :
    Layout.withoutReturn text = text ↔ (Part.comment text).Returnless := by
  rw [Layout.withoutReturn]
  split
  next hlast =>
    refine iff_of_false (fun heq => ?_) (fun htext => htext hlast)
    have hlength := congrArg (fun text => text.toList.length) heq
    have hchars : text.toList ≠ [] := by
      intro hempty
      rw [hempty] at hlast
      cases hlast
    have hpos := List.length_pos_of_ne_nil hchars
    simp only [String.toList_ofList, List.length_dropLast] at hlength
    omega
  next hlast => exact iff_of_true rfl hlast

theorem map_withoutReturn_eq_iff {texts : List String} :
    texts.map Layout.withoutReturn = texts ↔
      ∀ text ∈ texts, (Part.comment text).Returnless := by
  simp only [← withoutReturn_eq_iff]
  induction texts with
  | nil => simp
  | cons text texts ih => simp [ih]

theorem withoutReturns_eq_iff (comments : Comments) :
    comments.withoutReturns = comments ↔
      (∀ text ∈ comments.lead, (Part.comment text).Returnless) ∧
        ∀ text ∈ comments.line, (Part.comment text).Returnless := by
  obtain ⟨lead, line⟩ := comments
  rw [Comments.withoutReturns, Comments.mk.injEq, map_withoutReturn_eq_iff]
  cases line <;> simp [withoutReturn_eq_iff]

theorem Returnless.map_withoutReturn {texts : List String}
    (htexts : ∀ text ∈ texts, (Part.comment text).Returnless) :
    texts.map Layout.withoutReturn = texts :=
  map_withoutReturn_eq_iff.mpr htexts

theorem Returnless.withoutReturns_eq {comments : Comments}
    (hlead : ∀ text ∈ comments.lead, (Part.comment text).Returnless)
    (hline : ∀ text ∈ comments.line, (Part.comment text).Returnless) :
    comments.withoutReturns = comments :=
  (withoutReturns_eq_iff comments).mpr ⟨hlead, hline⟩

end Part

mutual

theorem Value.ReadBack.plain_eq_iff {value again : Value} (hagain : value.ReadBack again) :
    again.plain = value.plain ↔ ∀ part ∈ value.parts, part.Returnless := by
  cases value with
  | literal literal =>
      cases hagain
      exact iff_of_true rfl (List.forall_mem_singleton.mpr trivial)
  | object body =>
      cases hagain with
      | object hbody => rw [Value.plain, Value.plain, Value.object.injEq, hbody.plain_eq_iff]; rfl
  | list list =>
      cases hagain with
      | list hlist => rw [Value.plain, Value.plain, Value.list.injEq, hlist.plain_eq_iff]; rfl
termination_by structural value

/-- What is read back from a layout has the same contents exactly if no comment ends with a
carriage return. -/
theorem Body.ReadBack.plain_eq_iff {body again : Body} (hagain : body.ReadBack again) :
    again.plain = body.plain ↔ ∀ part ∈ body.parts, part.Returnless := by
  rw [Body.forall_parts]
  obtain ⟨items, dangling⟩ := body
  cases hagain with
  | mk hagain =>
      rw [Body.plain, Body.plain, Body.mk.injEq, hagain.plainAll_eq_iff,
        Part.map_withoutReturn_eq_iff]
termination_by structural body

theorem Item.AllReadBack.plainAll_eq_iff {above : Option Item} {items again : List Item}
    (hagain : Item.AllReadBack above items again) :
    Item.plainAll again = Item.plainAll items ↔
      ∀ item ∈ items, ∀ part ∈ item.parts, part.Returnless := by
  cases items with
  | nil =>
      cases hagain
      exact iff_of_true rfl (by simp)
  | cons item items =>
      cases hagain with
      | cons hitem hothers =>
          rw [Item.plainAll, Item.plainAll, List.cons.injEq, hitem.plain_eq_iff,
            hothers.plainAll_eq_iff, List.forall_mem_cons]
termination_by structural items

theorem Item.ReadBack.plain_eq_iff {above : Option Item} {item again : Item}
    (hagain : item.ReadBack above again) :
    again.plain = item.plain ↔ ∀ part ∈ item.parts, part.Returnless := by
  rw [Item.forall_parts]
  obtain ⟨keys, value, assigned, comments, blankBefore, span⟩ := item
  cases hagain with
  | mk hagain =>
      have hcomments := Part.withoutReturns_eq_iff comments
      simp only [Item.plain, Item.mk.injEq, hagain.plain_eq_iff, hcomments, true_and, and_true]
      constructor
      · exact fun ⟨hvalue, hlead, hline⟩ => ⟨trivial, hlead, fun _ _ => trivial, hvalue, hline⟩
      · exact fun ⟨_, hlead, _, hvalue, hline⟩ => ⟨hvalue, hlead, hline⟩
termination_by structural item

theorem ListBody.ReadBack.plain_eq_iff {list again : ListBody} (hagain : list.ReadBack again) :
    again.plain = list.plain ↔ ∀ part ∈ list.parts, part.Returnless := by
  rw [ListBody.forall_parts]
  obtain ⟨elements, dangling⟩ := list
  cases hagain with
  | mk hagain =>
      rw [ListBody.plain, ListBody.plain, ListBody.mk.injEq, hagain.plainAll_eq_iff,
        Part.map_withoutReturn_eq_iff]
termination_by structural list

theorem Element.AllReadBack.plainAll_eq_iff {elements again : List Element}
    (hagain : Element.AllReadBack elements again) :
    Element.plainAll again = Element.plainAll elements ↔
      ∀ element ∈ elements, ∀ part ∈ element.parts, part.Returnless := by
  cases elements with
  | nil =>
      cases hagain
      exact iff_of_true rfl (by simp)
  | cons element elements =>
      rw [List.forall_mem_cons, Element.forall_parts]
      obtain ⟨value, comments⟩ := element
      cases hagain with
      | cons hvalue _ hothers =>
          have hcomments := Part.withoutReturns_eq_iff comments
          simp only [Element.plainAll, List.cons.injEq, Element.mk.injEq, hvalue.plain_eq_iff,
            hcomments, hothers.plainAll_eq_iff]
          refine and_congr_left' ?_
          constructor
          · exact fun ⟨hinner, hlead, hline⟩ => ⟨trivial, hlead, hinner, hline⟩
          · exact fun ⟨_, hlead, hinner, hline⟩ => ⟨hinner, hlead, hline⟩
termination_by structural elements

end

theorem Body.ReadBack.plain_eq {body again : Body} (hagain : body.ReadBack again)
    (hparts : ∀ part ∈ body.parts, part.Returnless) : again.plain = body.plain :=
  hagain.plain_eq_iff.mpr hparts

mutual

theorem Value.spelled_plain (value : Value) :
    (∀ part ∈ value.plain.parts, part.Spelled) ↔ ∀ part ∈ value.parts, part.Spelled := by
  cases value with
  | literal literal => exact Iff.rfl
  | object body => exact body.spelled_plain
  | list list => exact list.spelled_plain
termination_by structural value

/-- What a reader records beside the contents has nothing to do with how literals are
spelled. -/
theorem Body.spelled_plain (body : Body) :
    (∀ part ∈ body.plain.parts, part.Spelled) ↔ ∀ part ∈ body.parts, part.Spelled := by
  obtain ⟨items, dangling⟩ := body
  rw [Body.forall_parts, Body.forall_parts]
  exact and_congr_left' (Item.spelled_plainAll items)
termination_by structural body

theorem Item.spelled_plainAll (items : List Item) :
    (∀ item ∈ Item.plainAll items, ∀ part ∈ item.parts, part.Spelled) ↔
      ∀ item ∈ items, ∀ part ∈ item.parts, part.Spelled := by
  cases items with
  | nil => exact Iff.rfl
  | cons item items =>
      rw [Item.plainAll, List.forall_mem_cons, List.forall_mem_cons, item.spelled_plain,
        Item.spelled_plainAll items]
termination_by structural items

theorem Item.spelled_plain (item : Item) :
    (∀ part ∈ item.plain.parts, part.Spelled) ↔ ∀ part ∈ item.parts, part.Spelled := by
  obtain ⟨keys, value, assigned, comments, blankBefore, span⟩ := item
  rw [Item.plain, Item.forall_parts, Item.forall_parts]
  refine and_congr Iff.rfl (and_congr Iff.rfl (and_congr Iff.rfl (and_congr_left' ?_)))
  exact value.spelled_plain
termination_by structural item

theorem ListBody.spelled_plain (list : ListBody) :
    (∀ part ∈ list.plain.parts, part.Spelled) ↔ ∀ part ∈ list.parts, part.Spelled := by
  obtain ⟨elements, dangling⟩ := list
  rw [ListBody.forall_parts, ListBody.forall_parts]
  exact and_congr_left' (Element.spelled_plainAll elements)
termination_by structural list

theorem Element.spelled_plainAll (elements : List Element) :
    (∀ element ∈ Element.plainAll elements, ∀ part ∈ element.parts, part.Spelled) ↔
      ∀ element ∈ elements, ∀ part ∈ element.parts, part.Spelled := by
  cases elements with
  | nil => exact Iff.rfl
  | cons element elements =>
      obtain ⟨value, comments⟩ := element
      rw [Element.plainAll, List.forall_mem_cons, List.forall_mem_cons, Element.forall_parts,
        Element.forall_parts, Element.spelled_plainAll elements, value.spelled_plain]
      exact Iff.rfl
termination_by structural elements

end

end HclEditor
