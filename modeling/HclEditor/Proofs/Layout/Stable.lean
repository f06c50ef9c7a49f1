import Mathlib
import HclEditor.Proofs.Document.ReadBack

/-!
# Layouts are stable

What is read back from a layout is laid out like the document before. The blank lines that
the layout has added are the ones it would add again, and none of them stands inside a run
of aligned items, since no item of a run holds an object.
-/

namespace HclEditor

namespace Layout

/-- Two rows that are laid out alike, apart from the blank line in front of them. -/
structure Row.Alike (row again : Row) : Prop where
  keys : again.item.keys = row.item.keys
  assigned : again.item.assigned = row.item.assigned
  comments : again.item.comments = row.item.comments
  isObject : again.item.value.isObject = row.item.value.isObject
  alignable : again.alignable = row.alignable
  text : again.text = row.text

/-- The second rows are alike the first, and have a blank line in front of them where the
first rows are set apart. -/
inductive AllAlike : Option Item → List Row → List Row → Prop where
  | nil (above : Option Item) : AllAlike above [] []
  | cons {above : Option Item} {row again : Row} {rows others : List Row}
      (hrow : row.Alike again) (hblank : again.item.blankBefore = above.any (·.setApart row.item))
      (hrows : AllAlike (some row.item) rows others) :
      AllAlike above (row :: rows) (again :: others)

namespace Row

/-- An item that may be aligned holds no object. -/
theorem isObject_of_alignable {row : Row} (halign : row.alignable = true) :
    row.item.value.isObject = false := by
  unfold alignable at halign
  split at halign
  next => cases halign
  next hvalue => rw [hvalue]; rfl
  next hobject _ =>
    cases hvalue : row.item.value with
    | object body => exact absurd hvalue (hobject body)
    | _ => rfl

namespace Alike

variable {row again : Row}

theorem keyWidth_eq (halike : row.Alike again) : again.keyWidth = row.keyWidth := by
  rw [keyWidth, keyWidth, Item.keyPath, Item.keyPath, halike.keys]

theorem layout_eq (halike : row.Alike again) (margin : String) (width : Nat) :
    again.layout margin width = row.layout margin width := by
  rw [layout, layout, Item.keyPath, Item.keyPath, halike.keys, halike.assigned,
    halike.comments, halike.text]

/-- Below an item that is no object, rows that are alike go on with a run alike. -/
theorem continuesRun_eq (halike : row.Alike again) {above : Item}
    (habove : above.value.isObject = false)
    (hblank : again.item.blankBefore = above.setApart row.item) :
    again.continuesRun = row.continuesRun := by
  rw [continuesRun, continuesRun, halike.alignable, hblank, Item.setApart, habove]
  cases halign : row.alignable with
  | false => rfl
  | true => simp [isObject_of_alignable halign]

end Alike

end Row

/-- Rows that are related have their runs in the same places, with the same key widths. -/
structure KeepsRuns (Related : List Row → List Row → Prop) : Prop where
  nil : ∀ {others}, Related [] others → others = []
  cons : ∀ {row rows others}, Related (row :: rows) others → ∃ again below,
    others = again :: below ∧ again.alignable = row.alignable ∧ again.keyWidth = row.keyWidth ∧
      (row.alignable = true → (below.takeWhile Row.continuesRun).map Row.keyWidth =
        (rows.takeWhile Row.continuesRun).map Row.keyWidth)
  drop : ∀ {rows others}, Related rows others → ∀ n, Related (rows.drop n) (others.drop n)

/-- The keys of such rows are padded to the same widths. -/
theorem KeepsRuns.widths_eq {Related : List Row → List Row → Prop} (hkeeps : KeepsRuns Related)
    {rows others : List Row} (hrelated : Related rows others) : widths others = widths rows := by
  -- A run is left behind as a whole, so the induction is on the number of rows.
  induction hsize : rows.length using Nat.strong_induction_on generalizing rows others with
  | _ size ih =>
      cases rows with
      | nil =>
          obtain rfl := hkeeps.nil hrelated
          rfl
      | cons row rows =>
          obtain ⟨again, others, rfl, halignable, hwidth, hruns⟩ := hkeeps.cons hrelated
          rw [List.length_cons] at hsize
          rw [widths_cons, widths_cons, halignable]
          split
          next halign =>
            have hrun := hruns halign
            have hlength := congrArg List.length hrun
            rw [List.length_map, List.length_map] at hlength
            have hdrop := hkeeps.drop hrelated ((rows.takeWhile Row.continuesRun).length + 1)
            rw [List.drop_succ_cons, List.drop_succ_cons] at hdrop
            dsimp only
            rw [List.length_cons, List.length_cons, Nat.add_sub_cancel, Nat.add_sub_cancel,
              runWidth, runWidth, List.map_cons, List.map_cons, hrun, hwidth, hlength]
            rw [ih _ ?_ hdrop rfl]
            rw [← hsize, List.length_drop]
            omega
          next =>
            have hbelow := hkeeps.drop hrelated 1
            rw [List.drop_succ_cons, List.drop_succ_cons, List.drop_zero, List.drop_zero] at hbelow
            rw [ih _ (by omega) hbelow rfl]

namespace AllAlike

variable {above : Option Item} {rows others : List Row}

theorem drop (halike : AllAlike above rows others) (n : Nat) :
    ∃ above, AllAlike above (rows.drop n) (others.drop n) := by
  induction n generalizing above rows others with
  | zero => exact ⟨above, halike⟩
  | succ n ih =>
      cases halike with
      | nil => exact ⟨above, .nil above⟩
      | cons hrow hblank hrows => exact ih hrows

/-- Below an item that is no object, the runs have the same key widths. -/
theorem map_keyWidth_run {item : Item} (halike : AllAlike (some item) rows others)
    (hitem : item.value.isObject = false) :
    (others.takeWhile Row.continuesRun).map Row.keyWidth =
      (rows.takeWhile Row.continuesRun).map Row.keyWidth := by
  induction rows generalizing item others with
  | nil =>
      cases halike
      rfl
  | cons row rows ih =>
      cases halike with
      | cons hrow hblank hrows =>
          rw [List.takeWhile_cons, List.takeWhile_cons, hrow.continuesRun_eq hitem hblank]
          split
          next hruns =>
            have halign : row.alignable = true := (Bool.and_eq_true_iff.mp hruns).1
            rw [List.map_cons, List.map_cons, hrow.keyWidth_eq,
              ih hrows (Row.isObject_of_alignable halign)]
          next => rfl

theorem keepsRuns : KeepsRuns fun rows others => ∃ above, AllAlike above rows others where
  nil := by
    rintro others ⟨above, halike⟩
    cases halike
    rfl
  cons := by
    rintro row rows others ⟨above, halike⟩
    cases halike with
    | cons hrow hblank hrows =>
        refine ⟨_, _, rfl, hrow.alignable, hrow.keyWidth_eq, ?_⟩
        intro halign
        exact hrows.map_keyWidth_run (Row.isObject_of_alignable halign)
  drop := by
    rintro rows others ⟨above, halike⟩ n
    exact halike.drop n

theorem rowsBelow_eq {item again : Item} (halike : AllAlike (some item) rows others)
    (hitem : again.value.isObject = item.value.isObject) (margin : String)
    (padded : List Nat) :
    rowsBelow margin again (others.zip padded) = rowsBelow margin item (rows.zip padded) := by
  induction rows generalizing item again others padded with
  | nil =>
      cases halike
      rfl
  | cons row rows ih =>
      cases halike with
      | @cons _ _ next rows others hrow hblank hrows =>
          cases padded with
          | nil => rfl
          | cons width padded =>
              -- The blank line that was read back is there because of the items' shapes
              -- or was there before; either way it is asked for again.
              have happart : again.setApart next.item = item.setApart row.item := by
                rw [Item.setApart, hblank, hitem, hrow.isObject, Option.any_some,
                  Item.setApart]
                cases row.item.blankBefore <;> cases item.value.isObject <;>
                  cases row.item.value.isObject <;> rfl
              rw [List.zip_cons_cons, List.zip_cons_cons, rowsBelow, rowsBelow, separator_eq,
                separator_eq, happart, hrow.layout_eq, ih hrows hrow.isObject]

/-- Rows that are alike make up the same text. -/
theorem body_eq (halike : AllAlike none rows others) (margin : String)
    (dangling : List String) : body margin others dangling = body margin rows dangling := by
  rw [body, body, keepsRuns.widths_eq ⟨none, halike⟩]
  cases halike with
  | nil => rfl
  | cons hrow hblank hrows =>
      cases widths (_ :: _) with
      | nil => rfl
      | cons width padded =>
          rw [List.zip_cons_cons, List.zip_cons_cons, Layout.rows, Layout.rows, hrow.layout_eq,
            hrows.rowsBelow_eq hrow.isObject]

end AllAlike

/-- Whether a list fits on a line depends on its scalars and comments. -/
theorem compactList?_congr {list again : ListBody}
    (htexts : again.elements.map (compactText? ·.value) = list.elements.map (compactText? ·.value))
    (hcomments : again.elements.map Element.comments = list.elements.map Element.comments)
    (hdangling : again.dangling = list.dangling) : compactList? again = compactList? list := by
  have hscalars (elements : List Element) :
      elements.mapM (fun element => compactText? element.value) =
        (elements.map (compactText? ·.value)).mapM id := by
    rw [List.mapM_map]
    rfl
  have hhas (list : ListBody) : list.hasComments = (!list.dangling.isEmpty ||
      (list.elements.map Element.comments).any fun comments =>
        !comments.lead.isEmpty || comments.line.isSome) := by
    rw [ListBody.hasComments, List.any_map]
    rfl
  rw [compactList?, compactList?, hscalars, hscalars, htexts, hhas, hhas, hcomments, hdangling]

end Layout

namespace Element

theorem AllReadBack.map_comments {elements again : List Element}
    (hagain : Element.AllReadBack elements again)
    (helements : ∀ element ∈ elements, ∀ part ∈ element.parts, part.Returnless) :
    again.map Element.comments = elements.map Element.comments := by
  induction elements generalizing again with
  | nil =>
      cases hagain
      rfl
  | cons element elements ih =>
      obtain ⟨hfirst, hmore⟩ := List.forall_mem_cons.mp helements
      obtain ⟨-, hlead, -, hline⟩ := Element.forall_parts.mp hfirst
      cases hagain with
      | cons hvalue comments hothers =>
          rw [List.map_cons, List.map_cons, ih hothers hmore,
            Part.Returnless.withoutReturns_eq hlead hline]

theorem AllReadBack.map_compactText? {elements again : List Element}
    (hagain : Element.AllReadBack elements again) :
    again.map (Layout.compactText? ·.value) = elements.map (Layout.compactText? ·.value) := by
  induction elements generalizing again with
  | nil =>
      cases hagain
      rfl
  | cons element elements ih =>
      cases hagain with
      | cons hvalue comments hothers =>
          rw [List.map_cons, List.map_cons, ih hothers]
          cases hvalue <;> rfl

end Element

namespace ListBody

theorem ReadBack.compactList?_eq {list again : ListBody} (hagain : list.ReadBack again)
    (hparts : ∀ part ∈ list.parts, part.Returnless) :
    Layout.compactList? again = Layout.compactList? list := by
  obtain ⟨helements, hdangling⟩ := ListBody.forall_parts.mp hparts
  cases hagain with
  | mk hagain dangling =>
      exact Layout.compactList?_congr hagain.map_compactText? (hagain.map_comments helements)
        (Part.Returnless.map_withoutReturn hdangling)

theorem ReadBack.isEmpty_eq {list again : ListBody} (hagain : list.ReadBack again) :
    again.isEmpty = list.isEmpty := by
  cases hagain with
  | mk hagain dangling => cases hagain <;> cases dangling <;> rfl

end ListBody

theorem Body.ReadBack.isEmpty_eq {body again : Body} (hagain : body.ReadBack again) :
    again.isEmpty = body.isEmpty := by
  cases hagain with
  | mk hagain dangling => cases hagain <;> cases dangling <;> rfl

/-- Whether an item may be aligned depends on its value's shape and text. -/
theorem Layout.Row.alignable_eq {row again : Row}
    (hassigned : again.item.assigned = row.item.assigned)
    (hvalue : row.item.value.ReadBack again.item.value) (htext : again.text = row.text) :
    again.alignable = row.alignable := by
  obtain ⟨⟨_, value, _, _, _, _⟩, _⟩ := row
  obtain ⟨⟨_, inner, _, _, _, _⟩, _⟩ := again
  cases hassigned
  cases htext
  cases hvalue <;> rfl

mutual

theorem Value.ReadBack.layout_eq (indent depth : Nat) {value again : Value}
    (hagain : value.ReadBack again) (hparts : ∀ part ∈ value.parts, part.Returnless) :
    again.layout indent depth = value.layout indent depth := by
  cases value with
  | literal literal =>
      cases hagain
      rfl
  | object body =>
      cases hagain with
      | object hbody =>
          rw [Value.layout, Value.layout, hbody.isEmpty_eq,
            hbody.layout_eq indent (depth + 1) hparts]
  | list list =>
      cases hagain with
      | list hlist =>
          rw [Value.layout, Value.layout, hlist.isEmpty_eq, hlist.compactList?_eq hparts,
            hlist.layout_eq indent (depth + 1) hparts]
termination_by structural value

/-- What is read back from a layout is laid out alike. -/
theorem Body.ReadBack.layout_eq (indent depth : Nat) {body again : Body}
    (hagain : body.ReadBack again) (hparts : ∀ part ∈ body.parts, part.Returnless) :
    again.layout indent depth = body.layout indent depth := by
  obtain ⟨hitems, hdangling⟩ := Body.forall_parts.mp hparts
  obtain ⟨items, dangling⟩ := body
  cases hagain with
  | mk hagain =>
      rw [Body.layout, Body.layout, (hagain.rowsOf_alike indent depth hitems).body_eq,
        Part.Returnless.map_withoutReturn hdangling]
termination_by structural body

theorem Item.AllReadBack.rowsOf_alike (indent depth : Nat) {above : Option Item}
    {items again : List Item} (hagain : Item.AllReadBack above items again)
    (hitems : ∀ item ∈ items, ∀ part ∈ item.parts, part.Returnless) :
    Layout.AllAlike above (Layout.rowsOf indent depth items)
      (Layout.rowsOf indent depth again) := by
  cases items with
  | nil =>
      cases hagain
      exact .nil above
  | cons item items =>
      obtain ⟨hfirst, hitems⟩ := List.forall_mem_cons.mp hitems
      cases hagain with
      | cons hitem hothers =>
          rw [Layout.rowsOf, Layout.rowsOf]
          refine .cons (hitem.row_alike indent depth hfirst) ?_
            (hothers.rowsOf_alike indent depth hitems)
          cases hitem
          rfl
termination_by structural items

theorem Item.ReadBack.row_alike (indent depth : Nat) {above : Option Item} {item again : Item}
    (hagain : item.ReadBack above again) (hparts : ∀ part ∈ item.parts, part.Returnless) :
    Layout.Row.Alike ⟨item, item.valueLayout indent depth⟩
      ⟨again, again.valueLayout indent depth⟩ := by
  obtain ⟨-, hlead, -, hvalue, hline⟩ := Item.forall_parts.mp hparts
  obtain ⟨keys, value, assigned, comments, blankBefore, span⟩ := item
  cases hagain with
  | mk hagain =>
      have htext := hagain.layout_eq indent depth hvalue
      exact ⟨rfl, rfl, Part.Returnless.withoutReturns_eq hlead hline, hagain.isObject_eq,
        Layout.Row.alignable_eq rfl hagain htext, htext⟩
termination_by structural item

theorem ListBody.ReadBack.layout_eq (indent depth : Nat) {list again : ListBody}
    (hagain : list.ReadBack again) (hparts : ∀ part ∈ list.parts, part.Returnless) :
    again.layout indent depth = list.layout indent depth := by
  obtain ⟨helements, hdangling⟩ := ListBody.forall_parts.mp hparts
  obtain ⟨elements, dangling⟩ := list
  cases hagain with
  | mk hagain =>
      rw [ListBody.layout, ListBody.layout, hagain.elementsOf_eq indent depth helements,
        Part.Returnless.map_withoutReturn hdangling]
termination_by structural list

theorem Element.AllReadBack.elementsOf_eq (indent depth : Nat) {elements again : List Element}
    (hagain : Element.AllReadBack elements again)
    (helements : ∀ element ∈ elements, ∀ part ∈ element.parts, part.Returnless) :
    Layout.elementsOf indent depth again = Layout.elementsOf indent depth elements := by
  cases elements with
  | nil =>
      cases hagain
      rfl
  | cons element elements =>
      obtain ⟨hfirst, hmore⟩ := List.forall_mem_cons.mp helements
      obtain ⟨-, hlead, hinner, hline⟩ := Element.forall_parts.mp hfirst
      obtain ⟨value, comments⟩ := element
      cases hagain with
      | cons hvalue _ hothers =>
          rw [Layout.elementsOf, Layout.elementsOf, hvalue.layout_eq indent depth hinner,
            Part.Returnless.withoutReturns_eq hlead hline,
            hothers.elementsOf_eq indent depth hmore]
termination_by structural elements

end

end HclEditor
