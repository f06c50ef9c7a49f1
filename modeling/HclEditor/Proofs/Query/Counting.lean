import Mathlib
import HclEditor.Query.Access

/-!
# Counting what is replaced

Replacing rebuilds a document and counts on the way. The document that it comes to can be
said without the counter, and the counter ends at the number of items that the query
addresses, which are listed by another walk.
-/

namespace HclEditor

mutual

/-- The value with a literal in place of the value of every addressed item. -/
def Value.replaced (query : Query) (literal : Literal) : Value → Value
  | .literal scalar => .literal scalar
  | .object body => .object (body.replaced query literal)
  | .list list => .list (list.replaced query literal)

/-- The body with a literal in place of the value of every addressed item. -/
def Body.replaced (query : Query) (literal : Literal) : Body → Body
  | ⟨items, dangling⟩ => ⟨Query.replacedAmong query literal items, dangling⟩

/-- The items with a literal in place of the value of every addressed one. -/
def Query.replacedAmong (query : Query) (literal : Literal) : List Item → List Item
  | [] => []
  | item :: items => item.replaced query literal :: query.replacedAmong literal items

/-- The item, holding the literal if the query addresses it, or else with the literal in
place of every value that the query addresses inside it. -/
def Item.replaced (query : Query) (literal : Literal) : Item → Item
  | ⟨keys, value, assigned, comments, blankBefore, span⟩ =>
      let item : Item := ⟨keys, value, assigned, comments, blankBefore, span⟩
      match query.inside item with
      | none => item.withValue (.literal literal)
      | some inner => { item with value := value.replaced inner literal }

/-- The list with a literal in place of the value of every addressed item. -/
def ListBody.replaced (query : Query) (literal : Literal) : ListBody → ListBody
  | ⟨elements, dangling⟩ => ⟨Query.replacedWithin query literal elements, dangling⟩

/-- The elements with a literal in place of the value of every addressed item. -/
def Query.replacedWithin (query : Query) (literal : Literal) : List Element → List Element
  | [] => []
  | ⟨value, comments⟩ :: elements =>
      ⟨value.replaced query literal, comments⟩ :: query.replacedWithin literal elements

end

namespace StateM

variable {σ α β : Type}

/-- A step is followed by the next one in the state in which it ends. -/
theorem run_bind (step : StateM σ α) (next : α → StateM σ β) (state : σ) :
    (step >>= next).run state = (next (step.run state).1).run (step.run state).2 :=
  rfl

theorem run_pure (a : α) (state : σ) : (pure a : StateM σ α).run state = (a, state) :=
  rfl

end StateM

-- The recursion is that of the walk; the count is general, since siblings go on counting.
mutual

theorem Value.run_replace (query : Query) (literal : Literal) (value : Value) (count : Nat) :
    (value.replace query literal).run count =
      (value.replaced query literal, count + (value.addressed query).length) := by
  cases value with
  | literal scalar => rfl
  | object body =>
      simp only [Value.replace, StateM.run_bind, body.run_replace query literal count,
        StateM.run_pure]
      rfl
  | list list =>
      simp only [Value.replace, StateM.run_bind, list.run_replace query literal count,
        StateM.run_pure]
      rfl

/-- Replacing in a body adds the number of addressed items to the count. -/
theorem Body.run_replace (query : Query) (literal : Literal) (body : Body) (count : Nat) :
    (body.replace query literal).run count =
      (body.replaced query literal, count + (body.addressed query).length) := by
  obtain ⟨items, dangling⟩ := body
  simp only [Body.replace, StateM.run_bind, query.run_replaceAmong literal items count,
    StateM.run_pure]
  rfl

theorem Query.run_replaceAmong (query : Query) (literal : Literal) (items : List Item)
    (count : Nat) :
    (query.replaceAmong literal items).run count =
      (query.replacedAmong literal items, count + (query.addressedAmong items).length) := by
  cases items with
  | nil => rfl
  | cons item items =>
      have hitems := query.run_replaceAmong literal items (count + (item.addressed query).length)
      simp only [Query.replaceAmong, StateM.run_bind, item.run_replace query literal count, hitems,
        StateM.run_pure]
      rw [Query.replacedAmong, Query.addressedAmong, List.length_append, Nat.add_assoc]

theorem Item.run_replace (query : Query) (literal : Literal) (item : Item) (count : Nat) :
    (item.replace query literal).run count =
      (item.replaced query literal, count + (item.addressed query).length) := by
  obtain ⟨keys, value, assigned, comments, blankBefore, span⟩ := item
  unfold Item.replace Item.replaced Item.addressed
  dsimp only
  cases query.inside ⟨keys, value, assigned, comments, blankBefore, span⟩ with
  | none => rfl
  | some inner =>
      simp only [StateM.run_bind, value.run_replace inner literal count, StateM.run_pure]

theorem ListBody.run_replace (query : Query) (literal : Literal) (list : ListBody)
    (count : Nat) :
    (list.replace query literal).run count =
      (list.replaced query literal, count + (list.addressed query).length) := by
  obtain ⟨elements, dangling⟩ := list
  simp only [ListBody.replace, StateM.run_bind, query.run_replaceWithin literal elements count,
    StateM.run_pure]
  rfl

theorem Query.run_replaceWithin (query : Query) (literal : Literal) (elements : List Element)
    (count : Nat) :
    (query.replaceWithin literal elements).run count =
      (query.replacedWithin literal elements,
        count + (query.addressedWithin elements).length) := by
  cases elements with
  | nil => rfl
  | cons element elements =>
      obtain ⟨value, comments⟩ := element
      have hothers :=
        query.run_replaceWithin literal elements (count + (value.addressed query).length)
      simp only [Query.replaceWithin, StateM.run_bind, value.run_replace query literal count,
        hothers, StateM.run_pure]
      rw [Query.replacedWithin, Query.addressedWithin, List.length_append, Nat.add_assoc]

end

/-- Setting values counts the addressed items and puts the literal into each of them. -/
theorem Body.set_eq (query : Query) (strict : Bool) (literal : Literal) (body : Body) :
    body.set query strict literal = (body.replaced query literal,
      if (body.addressed query).length = 0 ∧ strict = true then .error (.notFound query.display)
      else .ok (body.addressed query).length) := by
  simp only [set, body.run_replace query literal 0, Nat.zero_add]

namespace Document

theorem set_eq (query : Query) (strict : Bool) (literal : Literal) (document : Document) :
    document.set query strict literal =
      ({ document with body := document.body.replaced query literal },
        if (document.body.addressed query).length = 0 ∧ strict = true then
          .error (.notFound query.display)
        else .ok (document.body.addressed query).length) := by
  rw [set, Body.set_eq]

end Document

end HclEditor
