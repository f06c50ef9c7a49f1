import Mathlib
import HclEditor.Query.Access

/-!
# Queries embed into chains of items

Following a query commits to the first item that fits a segment. No other choice of items
reaches further: the query addresses the items whose chain from the root down its segments
embed into, in any way at all, except those inside an item that it embeds into already.
-/

namespace HclEditor

/-- An item of a document with the items that it is inside of, outermost first. -/
structure Placed where
  around : List Item
  item : Item

namespace Segment

/-- The item has exactly the keys that the segment names. -/
def Names : Segment → Item → Prop
  | .named key, item => item.keys.map Key.text = [key]
  | .labeled key label, item => item.keys.map Key.text = [key, label]

end Segment

namespace Item

theorem hasKey_iff {item : Item} {name : String} :
    item.hasKey name = true ↔ item.keys.map Key.text = [name] := by
  rcases item with ⟨keys, _⟩
  rcases keys with - | ⟨key, - | ⟨label, keys⟩⟩ <;> simp [hasKey]

theorem hasKeyPair_iff {item : Item} {name label : String} :
    item.hasKeyPair name label = true ↔ item.keys.map Key.text = [name, label] := by
  rcases item with ⟨keys, _⟩
  rcases keys with - | ⟨first, - | ⟨second, - | ⟨third, keys⟩⟩⟩ <;> simp [hasKeyPair]

end Item

namespace Segment

theorem fits_iff_names {segment : Segment} {item : Item} :
    segment.fits item = true ↔ segment.Names item := by
  cases segment with
  | named key => exact Item.hasKey_iff
  | labeled key label => exact Item.hasKeyPair_iff

/-- The segments that are left over when an item has been entered. -/
def entering (outer : List Segment) (item : Item) : List Segment :=
  match outer with
  | [] => []
  | segment :: rest => if segment.fits item then rest else outer

@[simp] theorem entering_nil (item : Item) : entering [] item = [] := rfl

/-- Segments that embed into a chain do so without the first of them. -/
theorem sublistForall₂_of_cons {segment : Segment} {outer : List Segment} {around : List Item}
    (hembeds : (segment :: outer).SublistForall₂ Names around) :
    outer.SublistForall₂ Names around := by
  induction around with
  | nil => cases hembeds
  | cons item around ih =>
      cases hembeds with
      | cons _ hrest => exact hrest.cons_right
      | cons_right hrest => exact (ih hrest).cons_right

/-- Using up the first segment at the first item that fits it spoils no embedding. -/
theorem sublistForall₂_cons_iff {outer : List Segment} {item : Item} {around : List Item} :
    outer.SublistForall₂ Names (item :: around) ↔
      (entering outer item).SublistForall₂ Names around := by
  cases outer with
  | nil => exact ⟨fun _ => .nil, fun _ => .nil⟩
  | cons segment outer =>
      rw [entering]
      split
      next hfits =>
        constructor
        · intro hembeds
          cases hembeds with
          | cons _ hrest => exact hrest
          | cons_right hrest => exact sublistForall₂_of_cons hrest
        · exact .cons (fits_iff_names.mp hfits)
      next hfits =>
        constructor
        · intro hembeds
          cases hembeds with
          | cons hnames _ => exact absurd (fits_iff_names.mpr hnames) hfits
          | cons_right hrest => exact hrest
        · exact .cons_right

/-- Entering the items of a chain one after the other leaves no segment over exactly if
the segments embed into the chain. -/
theorem foldl_entering_eq_nil_iff (outer : List Segment) (around : List Item) :
    around.foldl entering outer = [] ↔ outer.SublistForall₂ Names around := by
  induction around generalizing outer with
  | nil =>
      constructor
      · rintro rfl
        exact .nil
      · intro hembeds
        cases hembeds
        rfl
  | cons item around ih => rw [List.foldl_cons, ih, sublistForall₂_cons_iff]

end Segment

namespace Query

/-- The query fits an item: the item has the target as its only key, and the other
segments fit some of the items around it, in order. -/
def Embeds (query : Query) (around : List Item) (item : Item) : Prop :=
  item.keys.map Key.text = [query.target] ∧ query.outer.SublistForall₂ Segment.Names around

/-- The query fits none of the items of a chain. -/
def Misses (query : Query) (around : List Item) : Prop :=
  ∀ before item, before ++ [item] <+: around → ¬ query.Embeds before item

/-- The query fits the item, but no item around it. -/
def Selects (query : Query) (placed : Placed) : Prop :=
  query.Embeds placed.around placed.item ∧ query.Misses placed.around

instance (query : Query) (around : List Item) (item : Item) :
    Decidable (query.Embeds around item) :=
  have : Decidable (query.outer.SublistForall₂ Segment.Names around) :=
    decidable_of_iff (around.foldl Segment.entering query.outer = [])
      (Segment.foldl_entering_eq_nil_iff _ _)
  inferInstanceAs (Decidable (_ ∧ _))

theorem misses_iff_forall_getElem {query : Query} {around : List Item} :
    query.Misses around ↔
      ∀ (i : Nat) (hi : i < around.length), ¬ query.Embeds (around.take i) around[i] := by
  constructor
  · intro hmisses i hi
    refine hmisses _ _ ?_
    rw [List.take_append_getElem hi]
    exact List.take_prefix _ _
  · rintro hmisses before item ⟨after, rfl⟩
    have hitem := hmisses before.length (by simp)
    simpa using hitem

instance (query : Query) (around : List Item) : Decidable (query.Misses around) :=
  decidable_of_iff _ misses_iff_forall_getElem.symm

instance (query : Query) (placed : Placed) : Decidable (query.Selects placed) :=
  inferInstanceAs (Decidable (_ ∧ _))

theorem misses_nil (query : Query) : query.Misses [] := by
  intro before item hbegins
  simp at hbegins

/-- A chain is missed with one more item if it is missed without it and the query does not
fit that item. -/
theorem misses_concat_iff {query : Query} {around : List Item} {item : Item} :
    query.Misses (around ++ [item]) ↔ query.Misses around ∧ ¬ query.Embeds around item := by
  constructor
  · intro hmisses
    refine ⟨?_, hmisses around item (List.prefix_refl _)⟩
    intro before entered hbegins
    exact hmisses before entered (hbegins.trans (List.prefix_append _ _))
  · rintro ⟨hmisses, hembeds⟩ before entered hbegins
    rcases List.prefix_concat_iff.mp hbegins with heq | hbegins
    · obtain ⟨rfl, hitem⟩ := List.append_inj' heq rfl
      obtain rfl := List.singleton_inj.mp hitem
      exact hembeds
    · exact hmisses before entered hbegins

/-- What is left of the query inside the innermost item of a chain. -/
def remaining (query : Query) (around : List Item) : Query :=
  { query with outer := around.foldl Segment.entering query.outer }

theorem remaining_nil (query : Query) : query.remaining [] = query :=
  rfl

/-- Following what is left of a query ends at the items that the query fits. -/
theorem inside_remaining {query : Query} {around : List Item} {item : Item} :
    (query.remaining around).inside item =
      if query.Embeds around item then none else some (query.remaining (around ++ [item])) := by
  have hsegments := Segment.foldl_entering_eq_nil_iff query.outer around
  simp only [inside, remaining, List.foldl_append, List.foldl_cons, List.foldl_nil, Embeds,
    ← hsegments, ← Item.hasKey_iff]
  cases around.foldl Segment.entering query.outer with
  | nil => by_cases hkey : item.hasKey query.target = true <;> simp [hkey]
  | cons segment outer =>
      rw [if_neg (by simp), Segment.entering]
      exact (apply_ite (fun outer => some (⟨outer, query.target⟩ : Query)) _ _ _).symm

end Query

mutual

/-- The items inside a value, each before the items inside it, with the items around
them. The elements of a list are around nothing. -/
def Value.placed (around : List Item) : Value → List Placed
  | .literal _ => []
  | .object body => body.placed around
  | .list list => list.placed around
termination_by structural value => value

/-- The items of a body and inside them. -/
def Body.placed (around : List Item) : Body → List Placed
  | ⟨items, _⟩ => Placed.among around items
termination_by structural body => body

/-- The given items and those inside them. -/
def Placed.among (around : List Item) : List Item → List Placed
  | [] => []
  | item :: items => item.placed around ++ Placed.among around items
termination_by structural items => items

/-- The item and those inside it. -/
def Item.placed (around : List Item) : Item → List Placed
  | ⟨keys, value, assigned, comments, blankBefore, span⟩ =>
      let item : Item := ⟨keys, value, assigned, comments, blankBefore, span⟩
      ⟨around, item⟩ :: value.placed (around ++ [item])
termination_by structural item => item

/-- The items inside a list. -/
def ListBody.placed (around : List Item) : ListBody → List Placed
  | ⟨elements, _⟩ => Placed.within around elements
termination_by structural list => list

/-- The items inside the elements of a list. -/
def Placed.within (around : List Item) : List Element → List Placed
  | [] => []
  | ⟨value, _⟩ :: elements => value.placed around ++ Placed.within around elements
termination_by structural elements => elements

end

namespace Query

/-- The items that the query selects among those of a list. -/
def selected (query : Query) (candidates : List Placed) : List Item :=
  (candidates.filter fun placed => query.Selects placed).map Placed.item

@[simp] theorem selected_nil (query : Query) : query.selected [] = [] := rfl

@[simp] theorem selected_append (query : Query) (first second : List Placed) :
    query.selected (first ++ second) = query.selected first ++ query.selected second := by
  rw [selected, List.filter_append, List.map_append]
  rfl

theorem selected_cons (query : Query) (placed : Placed) (candidates : List Placed) :
    query.selected (placed :: candidates) =
      if query.Selects placed then placed.item :: query.selected candidates
      else query.selected candidates := by
  rw [selected, List.filter_cons]
  by_cases hselects : query.Selects placed <;> simp [hselects, selected]

/-- Nothing is selected inside an item that the query fits. -/
theorem selected_eq_nil {query : Query} {around : List Item} {item : Item}
    {candidates : List Placed} (hembeds : query.Embeds around item)
    (hinside : ∀ placed ∈ candidates, around ++ [item] <+: placed.around) :
    query.selected candidates = [] := by
  rw [selected, List.map_eq_nil_iff, List.filter_eq_nil_iff]
  intro placed hplaced hselects
  exact (of_decide_eq_true hselects).2 _ _ (hinside placed hplaced) hembeds

end Query

mutual

/-- The items inside a value are inside all items around the value. -/
theorem Value.prefix_of_mem_placed (value : Value) (around : List Item) :
    ∀ placed ∈ value.placed around, around <+: placed.around := by
  cases value with
  | literal scalar => simp [Value.placed]
  | object body =>
      rw [Value.placed]
      exact Body.prefix_of_mem_placed body around
  | list list =>
      rw [Value.placed]
      exact ListBody.prefix_of_mem_placed list around
termination_by structural value

theorem Body.prefix_of_mem_placed (body : Body) (around : List Item) :
    ∀ placed ∈ body.placed around, around <+: placed.around := by
  obtain ⟨items, dangling⟩ := body
  rw [Body.placed]
  exact Placed.prefix_of_mem_among items around
termination_by structural body

theorem Placed.prefix_of_mem_among (items : List Item) (around : List Item) :
    ∀ placed ∈ Placed.among around items, around <+: placed.around := by
  cases items with
  | nil => simp [Placed.among]
  | cons item items =>
      rw [Placed.among, List.forall_mem_append]
      exact ⟨Item.prefix_of_mem_placed item around, Placed.prefix_of_mem_among items around⟩
termination_by structural items

theorem Item.prefix_of_mem_placed (item : Item) (around : List Item) :
    ∀ placed ∈ item.placed around, around <+: placed.around := by
  obtain ⟨keys, value, assigned, comments, blankBefore, span⟩ := item
  rw [Item.placed, List.forall_mem_cons]
  refine ⟨List.prefix_refl _, ?_⟩
  intro placed hplaced
  exact (List.prefix_append _ _).trans (Value.prefix_of_mem_placed value _ placed hplaced)
termination_by structural item

theorem ListBody.prefix_of_mem_placed (list : ListBody) (around : List Item) :
    ∀ placed ∈ list.placed around, around <+: placed.around := by
  obtain ⟨elements, dangling⟩ := list
  rw [ListBody.placed]
  exact Placed.prefix_of_mem_within elements around
termination_by structural list

theorem Placed.prefix_of_mem_within (elements : List Element) (around : List Item) :
    ∀ placed ∈ Placed.within around elements, around <+: placed.around := by
  cases elements with
  | nil => simp [Placed.within]
  | cons element elements =>
      obtain ⟨value, comments⟩ := element
      rw [Placed.within, List.forall_mem_append]
      exact ⟨Value.prefix_of_mem_placed value around,
        Placed.prefix_of_mem_within elements around⟩
termination_by structural elements

end

mutual

/-- Inside items that it does not fit, following what is left of the query finds the items
that the whole query selects. -/
theorem Value.addressed_remaining (query : Query) (value : Value) (around : List Item)
    (hmisses : query.Misses around) :
    value.addressed (query.remaining around) = query.selected (value.placed around) := by
  cases value with
  | literal scalar => rw [Value.addressed, Value.placed, Query.selected_nil]
  | object body =>
      rw [Value.addressed, Value.placed]
      exact Body.addressed_remaining query body around hmisses
  | list list =>
      rw [Value.addressed, Value.placed]
      exact ListBody.addressed_remaining query list around hmisses
termination_by structural value

theorem Body.addressed_remaining (query : Query) (body : Body) (around : List Item)
    (hmisses : query.Misses around) :
    body.addressed (query.remaining around) = query.selected (body.placed around) := by
  obtain ⟨items, dangling⟩ := body
  rw [Body.addressed, Body.placed]
  exact Query.addressedAmong_remaining query items around hmisses
termination_by structural body

theorem Query.addressedAmong_remaining (query : Query) (items : List Item)
    (around : List Item) (hmisses : query.Misses around) :
    (query.remaining around).addressedAmong items =
      query.selected (Placed.among around items) := by
  cases items with
  | nil => rw [Query.addressedAmong, Placed.among, Query.selected_nil]
  | cons item items =>
      rw [Query.addressedAmong, Placed.among, Query.selected_append,
        Item.addressed_remaining query item around hmisses,
        Query.addressedAmong_remaining query items around hmisses]
termination_by structural items

theorem Item.addressed_remaining (query : Query) (item : Item) (around : List Item)
    (hmisses : query.Misses around) :
    item.addressed (query.remaining around) = query.selected (item.placed around) := by
  obtain ⟨keys, value, assigned, comments, blankBefore, span⟩ := item
  rw [Item.addressed, Item.placed, Query.selected_cons, Query.inside_remaining]
  -- The query ends at this item, or goes on inside it with one more item around.
  by_cases hembeds :
      query.Embeds around ⟨keys, value, assigned, comments, blankBefore, span⟩
  · rw [if_pos hembeds, if_pos ⟨hembeds, hmisses⟩,
      Query.selected_eq_nil hembeds (Value.prefix_of_mem_placed value _)]
  · rw [if_neg hembeds, if_neg fun hselects => hembeds hselects.1]
    exact Value.addressed_remaining query value _ (Query.misses_concat_iff.mpr ⟨hmisses, hembeds⟩)
termination_by structural item

theorem ListBody.addressed_remaining (query : Query) (list : ListBody) (around : List Item)
    (hmisses : query.Misses around) :
    list.addressed (query.remaining around) = query.selected (list.placed around) := by
  obtain ⟨elements, dangling⟩ := list
  rw [ListBody.addressed, ListBody.placed]
  exact Query.addressedWithin_remaining query elements around hmisses
termination_by structural list

theorem Query.addressedWithin_remaining (query : Query) (elements : List Element)
    (around : List Item) (hmisses : query.Misses around) :
    (query.remaining around).addressedWithin elements =
      query.selected (Placed.within around elements) := by
  cases elements with
  | nil => rw [Query.addressedWithin, Placed.within, Query.selected_nil]
  | cons element elements =>
      obtain ⟨value, comments⟩ := element
      rw [Query.addressedWithin, Placed.within, Query.selected_append,
        Value.addressed_remaining query value around hmisses,
        Query.addressedWithin_remaining query elements around hmisses]
termination_by structural elements

end

/-- A query addresses the items that it selects. -/
theorem Body.addressed_eq_selected (query : Query) (body : Body) :
    body.addressed query = query.selected (body.placed []) :=
  Body.addressed_remaining query body [] query.misses_nil

-- Either `a` is around the first `b`; the `b` inside of that is not selected.
example :
    let item (name : String) (items : List Item) : Item :=
      .ofValue [.identifier name] (.object ⟨items, []⟩)
    let body : Body := ⟨[item "a" [item "a" [item "b" [item "b" []]], item "b" []]], []⟩
    (body.placed []).length = 5 ∧
      (Query.selected ⟨[.named "a"], "b"⟩ (body.placed [])).length = 2 ∧
      (Query.selected ⟨[.named "a", .named "a"], "b"⟩ (body.placed [])).length = 1 := by
  decide +kernel

end HclEditor
