import Mathlib
import HclEditor.Proofs.Document.ReadBack
import HclEditor.Proofs.Query.Replacement
import HclEditor.Query.Access

/-!
# Reading values of a document that is read back

A document that is read back from its layout answers every query as the document does: the
same items are addressed in the same order, and they hold the same scalars.
-/

namespace HclEditor

/-- An item that is read back has the content of the item, or lacks one for the same
reason. -/
theorem Item.ReadBack.content_eq {above : Option Item} {item again : Item}
    (hagain : item.ReadBack above again) : again.content = item.content := by
  cases hagain with
  | mk hvalue => cases hvalue <;> rfl

mutual

theorem Value.ReadBack.contents_eq {value again : Value} (hagain : value.ReadBack again)
    (query : Query) :
    (again.addressed query).map Item.content = (value.addressed query).map Item.content := by
  cases value with
  | literal literal =>
      cases hagain
      rfl
  | object body =>
      cases hagain with
      | object hbody => exact hbody.contents_eq query
  | list list =>
      cases hagain with
      | list hlist => exact hlist.contents_eq query
termination_by structural value

/-- The items that a query addresses have the same contents in a body that is read back. -/
theorem Body.ReadBack.contents_eq {body again : Body} (hagain : body.ReadBack again)
    (query : Query) :
    (again.addressed query).map Item.content = (body.addressed query).map Item.content := by
  obtain ⟨items, dangling⟩ := body
  cases hagain with
  | mk hitems => exact hitems.contents_eq query
termination_by structural body

theorem Item.AllReadBack.contents_eq {above : Option Item} {items again : List Item}
    (hagain : Item.AllReadBack above items again) (query : Query) :
    (query.addressedAmong again).map Item.content =
      (query.addressedAmong items).map Item.content := by
  cases items with
  | nil =>
      cases hagain
      rfl
  | cons item items =>
      cases hagain with
      | cons hitem hothers =>
          rw [Query.addressedAmong, Query.addressedAmong, List.map_append, List.map_append,
            hitem.contents_eq query, hothers.contents_eq query]
termination_by structural items

theorem Item.ReadBack.contents_eq {above : Option Item} {item again : Item}
    (hagain : item.ReadBack above again) (query : Query) :
    (again.addressed query).map Item.content = (item.addressed query).map Item.content := by
  have hkeys : again.keys = item.keys := by cases hagain; rfl
  rw [Item.addressed_eq, Item.addressed_eq, query.inside_congr hkeys]
  split
  · rw [List.map_singleton, List.map_singleton, hagain.content_eq]
  next inner _ =>
    obtain ⟨keys, value, assigned, comments, blankBefore, span⟩ := item
    cases hagain with
    | mk hvalue => exact hvalue.contents_eq inner
termination_by structural item

theorem ListBody.ReadBack.contents_eq {list again : ListBody} (hagain : list.ReadBack again)
    (query : Query) :
    (again.addressed query).map Item.content = (list.addressed query).map Item.content := by
  obtain ⟨elements, dangling⟩ := list
  cases hagain with
  | mk helements => exact helements.contents_eq query
termination_by structural list

theorem Element.AllReadBack.contents_eq {elements again : List Element}
    (hagain : Element.AllReadBack elements again) (query : Query) :
    (query.addressedWithin again).map Item.content =
      (query.addressedWithin elements).map Item.content := by
  cases elements with
  | nil =>
      cases hagain
      rfl
  | cons element elements =>
      obtain ⟨value, comments⟩ := element
      cases hagain with
      | cons hvalue _ hothers =>
          rw [Query.addressedWithin, Query.addressedWithin, List.map_append, List.map_append,
            hvalue.contents_eq query, hothers.contents_eq query]
termination_by structural elements

end

namespace Document

/-- A document that is read back answers every query as the document does. -/
theorem get_eq_of_readBack {document again : Document}
    (hagain : document.body.ReadBack again.body) (query : Query) (strict : Bool) (sink : Sink) :
    again.get query strict sink = document.get query strict sink := by
  have hmapM (items : List Item) : items.mapM Item.content = (items.map Item.content).mapM id := by
    rw [List.mapM_map]
    rfl
  have hget : again.body.get query strict = document.body.get query strict := by
    rw [Body.get, Body.get, hmapM, hmapM, hagain.contents_eq query]
  rw [get, get, hget]

end Document

end HclEditor
