import HclEditor.Document.Basic
import HclEditor.Query.Basic

/-!
# Addressed items

A query is followed from the root down: the first item on the way that fits its first
segment uses the segment up, and the rest of the query is followed inside it. An item
with the query's target as its only key is addressed once no segment is left; nothing
inside it is visited. Lists are passed through.
-/

namespace HclEditor

namespace Segment

/-- The item has the keys that the segment asks for. -/
def fits (item : Item) : Segment → Bool
  | .named key => item.hasKey key
  | .labeled key label => item.hasKeyPair key label

end Segment

namespace Query

/-- The query to follow inside an item; nothing if the item itself is addressed. -/
def inside (query : Query) (item : Item) : Option Query :=
  match query.outer with
  | [] => if item.hasKey query.target then none else some query
  | segment :: outer =>
      if segment.fits item then some { query with outer } else some query

end Query

mutual

/-- The items that a query addresses inside a value, in document order. -/
def Value.addressed (query : Query) : Value → List Item
  | .literal _ => []
  | .object body => body.addressed query
  | .list list => list.addressed query

/-- The items that a query addresses in a body, in document order. -/
def Body.addressed (query : Query) : Body → List Item
  | ⟨items, _⟩ => Query.addressedAmong query items

/-- The items that a query addresses among some items and inside them. -/
def Query.addressedAmong (query : Query) : List Item → List Item
  | [] => []
  | item :: items => item.addressed query ++ query.addressedAmong items

/-- The item, if the query addresses it, or else what the query addresses inside it. -/
def Item.addressed (query : Query) : Item → List Item
  | ⟨keys, value, assigned, comments, blankBefore, span⟩ =>
      let item : Item := ⟨keys, value, assigned, comments, blankBefore, span⟩
      match query.inside item with
      | none => [item]
      | some inner => value.addressed inner

/-- The items that a query addresses inside a list, in document order. -/
def ListBody.addressed (query : Query) : ListBody → List Item
  | ⟨elements, _⟩ => Query.addressedWithin query elements

/-- The items that a query addresses inside the elements of a list. -/
def Query.addressedWithin (query : Query) : List Element → List Item
  | [] => []
  | ⟨value, _⟩ :: elements => value.addressed query ++ query.addressedWithin elements

end

/-! Replacing walks over all items, in document order, and counts those that the query
addresses. -/

mutual

/-- Puts a literal in place of the value of every addressed item inside a value. -/
def Value.replace (query : Query) (literal : Literal) : Value → StateM Nat Value
  | .literal scalar => return .literal scalar
  | .object body => return .object (← body.replace query literal)
  | .list list => return .list (← list.replace query literal)

/-- Puts a literal in place of the value of every addressed item in a body. -/
def Body.replace (query : Query) (literal : Literal) : Body → StateM Nat Body
  | ⟨items, dangling⟩ => return ⟨← query.replaceAmong literal items, dangling⟩

/-- Puts a literal in place of the value of every addressed one of some items, and of every
addressed item inside them. -/
def Query.replaceAmong (query : Query) (literal : Literal) : List Item → StateM Nat (List Item)
  | [] => return []
  | item :: items => return (← item.replace query literal) :: (← query.replaceAmong literal items)

/-- Puts a literal in place of the item's value, if the query addresses the item, or else in
place of every value that the query addresses inside it. -/
def Item.replace (query : Query) (literal : Literal) : Item → StateM Nat Item
  | ⟨keys, value, assigned, comments, blankBefore, span⟩ => do
      let item : Item := ⟨keys, value, assigned, comments, blankBefore, span⟩
      match query.inside item with
      | none =>
          modify (· + 1)
          return item.withValue (.literal literal)
      | some inner => return { item with value := ← value.replace inner literal }

/-- Puts a literal in place of the value of every addressed item inside a list. -/
def ListBody.replace (query : Query) (literal : Literal) : ListBody → StateM Nat ListBody
  | ⟨elements, dangling⟩ => return ⟨← query.replaceWithin literal elements, dangling⟩

/-- Puts a literal in place of the value of every addressed item inside some elements. -/
def Query.replaceWithin (query : Query) (literal : Literal) :
    List Element → StateM Nat (List Element)
  | [] => return []
  | ⟨value, comments⟩ :: elements =>
      return ⟨← value.replace query literal, comments⟩ :: (← query.replaceWithin literal elements)

end

end HclEditor
