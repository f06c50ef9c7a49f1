import Mathlib
import HclEditor.Proofs.Layout.Pieces

/-!
# Runs of aligned items

The rows of a body whose `=` may be aligned fall into runs of neighbours, of which only the first
may have a blank line in front of it. The runs are as long as they can be, and the keys of each
are padded to the width of its longest.
-/

namespace HclEditor

namespace Layout

/-- The `=` of the row may be aligned: what is assigned is a heredoc, or else a literal or a list
that takes a single line. -/
def Row.MayAlign (row : Row) : Prop :=
  row.item.assigned = true ∧ ((∃ text, row.item.value = .literal ⟨.heredoc, text⟩) ∨
    ((∃ literal, row.item.value = .literal literal) ∨ ∃ list, row.item.value = .list list) ∧
      '\n' ∉ row.text.toList)

/-- The rows from one index up to another may all be aligned, and none but the first has a blank
line in front of it. -/
structure IsRun (rows : List Row) (first stop : Nat) : Prop where
  first_lt_stop : first < stop
  stop_le : stop ≤ rows.length
  mayAlign : ∀ i row, first ≤ i → i < stop → rows[i]? = some row → row.MayAlign
  unbroken : ∀ i row, first < i → i < stop → rows[i]? = some row → row.item.blankBefore = false

/-- The run is not part of a longer one. -/
structure IsMaximalRun (rows : List Row) (first stop : Nat) : Prop where
  isRun : IsRun rows first stop
  maximal : ∀ first' stop', IsRun rows first' stop' → first' ≤ first → stop ≤ stop' →
    first' = first ∧ stop' = stop

theorem Row.alignable_iff {row : Row} : row.alignable = true ↔ row.MayAlign := by
  unfold alignable MayAlign
  split
  next body hvalue => simp [hvalue]
  next text hvalue => simp [hvalue]
  next hobject hheredoc =>
    cases hvalue : row.item.value with
    | literal literal =>
        obtain ⟨kind, text⟩ := literal
        have hkind : kind ≠ .heredoc := by
          rintro rfl
          exact hheredoc text hvalue
        simp [hkind]
    | object body => exact absurd hvalue (hobject body)
    | list list => simp

theorem Row.continuesRun_iff {row : Row} :
    row.continuesRun = true ↔ row.MayAlign ∧ row.item.blankBefore = false := by
  rw [continuesRun, Bool.and_eq_true, Row.alignable_iff, Bool.not_eq_true']

namespace IsRun

variable {rows : List Row} {first stop first' stop' i : Nat}

/-- Where two runs share a row, their rows together are a run. -/
theorem union (hrun : IsRun rows first stop) (hrun' : IsRun rows first' stop')
    (hfirst : first ≤ i) (hstop : i < stop) (hfirst' : first' ≤ i) (hstop' : i < stop') :
    IsRun rows (min first first') (max stop stop') := by
  refine ⟨by omega, max_le hrun.stop_le hrun'.stop_le, ?_, ?_⟩
  · intro j row hlow hhigh hrow
    by_cases hj : first ≤ j ∧ j < stop
    · exact hrun.mayAlign j row hj.1 hj.2 hrow
    · exact hrun'.mayAlign j row (by omega) (by omega) hrow
  · intro j row hlow hhigh hrow
    by_cases hj : first < j ∧ j < stop
    · exact hrun.unbroken j row hj.1 hj.2 hrow
    · exact hrun'.unbroken j row (by omega) (by omega) hrow

/-- A run goes on with the one below it if there is no blank line between them. -/
theorem append {middle : Nat} {row : Row} (hrun : IsRun rows first middle)
    (hrun' : IsRun rows middle stop) (hrow : rows[middle]? = some row)
    (hblank : row.item.blankBefore = false) : IsRun rows first stop := by
  refine ⟨hrun.first_lt_stop.trans hrun'.first_lt_stop, hrun'.stop_le, ?_, ?_⟩
  · intro j next hlow hhigh hnext
    rcases lt_or_ge j middle with hj | hj
    · exact hrun.mayAlign j next hlow hj hnext
    · exact hrun'.mayAlign j next hj hhigh hnext
  · intro j next hlow hhigh hnext
    rcases lt_trichotomy j middle with hj | rfl | hj
    · exact hrun.unbroken j next hlow hj hnext
    · obtain rfl := Option.some.inj (hrow.symm.trans hnext)
      exact hblank
    · exact hrun'.unbroken j next hj hhigh hnext

/-- The beginning of a run is a run. -/
theorem shorten (hrun : IsRun rows first stop) (hfirst : first < stop') (hstop : stop' ≤ stop) :
    IsRun rows first stop' :=
  ⟨hfirst, hstop.trans hrun.stop_le,
    fun j row hlow hhigh => hrun.mayAlign j row hlow (hhigh.trans_le hstop),
    fun j row hlow hhigh => hrun.unbroken j row hlow (hhigh.trans_le hstop)⟩

theorem single {row : Row} (hrow : rows[i]? = some row) (halign : row.MayAlign) :
    IsRun rows i (i + 1) := by
  refine ⟨Nat.lt_succ_self i, (List.getElem?_eq_some_iff.mp hrow).1, ?_, fun j row => by omega⟩
  intro j row' hlow hhigh hrow'
  obtain rfl : j = i := by omega
  rw [hrow, Option.some.injEq] at hrow'
  exact hrow' ▸ halign

end IsRun

/-- A row that may be aligned is in one run that is not part of a longer one. -/
theorem existsUnique_isMaximalRun {rows : List Row} {i : Nat} {row : Row}
    (hrow : rows[i]? = some row) (halign : row.MayAlign) :
    ∃! run : Nat × Nat, IsMaximalRun rows run.1 run.2 ∧ run.1 ≤ i ∧ i < run.2 := by
  classical
  have hfirsts : ∃ first, IsRun rows first (i + 1) := ⟨i, .single hrow halign⟩
  obtain ⟨first, hfirst⟩ : ∃ first, first = Nat.find hfirsts := ⟨_, rfl⟩
  have hrun : IsRun rows first (i + 1) := hfirst ▸ Nat.find_spec hfirsts
  have hle : first ≤ i := Nat.le_of_lt_succ hrun.first_lt_stop
  obtain ⟨stop, hstop⟩ : ∃ stop, stop = Nat.findGreatest (IsRun rows first) rows.length := ⟨_, rfl⟩
  have hlong : IsRun rows first stop := hstop ▸ Nat.findGreatest_spec hrun.stop_le hrun
  have hlt : i < stop := hstop ▸ Nat.le_findGreatest hrun.stop_le hrun
  have hmaximal : IsMaximalRun rows first stop := by
    refine ⟨hlong, fun first' stop' hrun' hlow hhigh => ?_⟩
    obtain rfl : first' = first := by
      refine le_antisymm hlow (hfirst ▸ Nat.find_min' hfirsts ?_)
      exact hrun'.shorten (by omega) (by omega)
    exact ⟨rfl, le_antisymm (hstop ▸ Nat.le_findGreatest hrun'.stop_le hrun') hhigh⟩
  refine ⟨(first, stop), ⟨hmaximal, hle, hlt⟩, ?_⟩
  rintro ⟨first', stop'⟩ ⟨hmaximal', hle', hlt'⟩
  have hunion := hmaximal'.isRun.union hlong hle' hlt' hle hlt
  obtain ⟨hsame, hsame'⟩ := hmaximal.maximal _ _ hunion (min_le_right _ _) (le_max_right _ _)
  obtain ⟨hsame₁, hsame₁'⟩ := hmaximal'.maximal _ _ hunion (min_le_left _ _) (le_max_left _ _)
  rw [Prod.mk.injEq]
  omega

section TakeWhile

variable {α : Type} {p : α → Bool} {l : List α}

theorem exists_getElem?_of_lt_takeWhile {i : Nat} (hi : i < (l.takeWhile p).length) :
    ∃ a, l[i]? = some a ∧ p a = true := by
  obtain ⟨more, hmore⟩ := List.takeWhile_prefix p (l := l)
  refine ⟨(l.takeWhile p)[i], ?_, List.mem_takeWhile_imp (List.getElem_mem hi)⟩
  conv_lhs => rw [← hmore, List.getElem?_append_left hi, List.getElem?_eq_getElem hi]

theorem takeWhile_eq_take {n : Nat} (hfront : ∀ i a, i < n → l[i]? = some a → p a = true)
    (hnext : ∀ a, l[n]? = some a → p a = false) : l.takeWhile p = l.take n := by
  have htake : ∀ a ∈ l.take n, p a = true := by
    intro a ha
    obtain ⟨i, hi⟩ := List.mem_iff_getElem?.mp ha
    rw [List.getElem?_take, Option.ite_none_right_eq_some] at hi
    exact hfront i a hi.1 hi.2
  have hdrop : (l.drop n).takeWhile p = [] := by
    cases hl : l.drop n with
    | nil => rfl
    | cons a more =>
        refine List.takeWhile_cons_of_neg ?_
        rw [hnext a (by rw [← List.head?_drop, hl]; rfl)]
        exact Bool.false_ne_true
  conv_lhs => rw [← List.take_append_drop n l, List.takeWhile_append_of_pos htake, hdrop,
    List.append_nil]

end TakeWhile

/-- No run goes on from the row above an index to the row at it. -/
def BreaksAt (rows : List Row) (index : Nat) : Prop :=
  ∀ i above row, index = i + 1 → rows[i]? = some above → rows[index]? = some row →
    above.alignable = true → row.continuesRun = false

theorem BreaksAt.drop {rows : List Row} {n index : Nat} (hbreaks : BreaksAt rows (n + index)) :
    BreaksAt (rows.drop n) index := by
  rintro i above row rfl habove hrow
  rw [List.getElem?_drop] at habove hrow
  exact hbreaks (n + i) above row rfl habove hrow

/-- In the run that starts with the first row, every row goes on with it. -/
theorem not_breaksAt_of_lt {row : Row} {rows : List Row} (halign : row.alignable = true)
    {index : Nat} (hindex : index < (rows.takeWhile Row.continuesRun).length) :
    ¬ BreaksAt (row :: rows) (index + 1) := by
  intro hbreaks
  obtain ⟨next, hnext, hcontinues⟩ := exists_getElem?_of_lt_takeWhile hindex
  have habove : ∃ above, (row :: rows)[index]? = some above ∧ above.alignable = true := by
    cases index with
    | zero => exact ⟨row, rfl, halign⟩
    | succ index =>
        obtain ⟨above, habove, hcontinues⟩ :=
          exists_getElem?_of_lt_takeWhile (Nat.lt_of_succ_lt hindex)
        exact ⟨above, habove, Row.alignable_of_continuesRun hcontinues⟩
  obtain ⟨above, habove, habove'⟩ := habove
  have hends := hbreaks index above next rfl habove hnext habove'
  exact Bool.false_ne_true (hends.symm.trans hcontinues)

/-- Behind a break, the widths are those that the rows there have by themselves. -/
theorem drop_widths {rows : List Row} {index : Nat} (hbreaks : BreaksAt rows index) :
    (widths rows).drop index = widths (rows.drop index) := by
  -- A run is left behind as a whole, so the induction is on the number of rows.
  induction hsize : rows.length using Nat.strong_induction_on generalizing rows index with
  | _ size ih =>
      cases index with
      | zero => rw [List.drop_zero, List.drop_zero]
      | succ index =>
          cases rows with
          | nil => simp
          | cons row rows =>
              rw [List.length_cons] at hsize
              rw [widths_cons]
              split
              next halign =>
                have hbehind : (rows.takeWhile Row.continuesRun).length ≤ index :=
                  Nat.not_lt.mp fun hlt => not_breaksAt_of_lt halign hlt hbreaks
                obtain ⟨more, rfl⟩ := Nat.exists_eq_add_of_le hbehind
                rw [Nat.add_right_comm] at hbreaks ⊢
                have hrun : (List.replicate (row :: rows.takeWhile Row.continuesRun).length
                    (runWidth (row :: rows.takeWhile Row.continuesRun))).length =
                      (rows.takeWhile Row.continuesRun).length + 1 := List.length_replicate
                dsimp only
                rw [← hrun, List.drop_length_add_append, hrun, ← List.drop_drop]
                refine ih _ ?_ hbreaks.drop rfl
                rw [List.length_drop, List.length_cons]
                omega
              next halign =>
                rw [List.drop_succ_cons, List.drop_succ_cons]
                rw [Nat.add_comm] at hbreaks
                exact ih rows.length (by omega) hbreaks.drop rfl

namespace IsMaximalRun

variable {rows : List Row} {first stop : Nat} (hmaximal : IsMaximalRun rows first stop)
include hmaximal

/-- The row above the first of a run does not belong to it. -/
theorem breaksAt : BreaksAt rows first := by
  rintro i above row rfl habove hrow halign
  rw [← Bool.not_eq_true, Row.continuesRun_iff]
  rintro ⟨-, hblank⟩
  have habove := IsRun.single habove (Row.alignable_iff.mp halign)
  have hlong := habove.append hmaximal.isRun hrow hblank
  have hsame := (hmaximal.maximal i stop hlong (Nat.le_succ i) le_rfl).1
  omega

/-- The row below the last of a run does not go on with it. -/
theorem continuesRun_stop {row : Row} (hrow : rows[stop]? = some row) :
    row.continuesRun = false := by
  rw [← Bool.not_eq_true, Row.continuesRun_iff]
  rintro ⟨halign, hblank⟩
  have hlong := hmaximal.isRun.append (.single hrow halign) hrow hblank
  have hsame := (hmaximal.maximal first (stop + 1) hlong le_rfl (Nat.le_succ stop)).2
  omega

/-- From its first row on, a run is what is aligned together. -/
theorem drop_eq : ∃ row, row.alignable = true ∧
    rows.drop first = row :: rows.drop (first + 1) ∧
    row :: (rows.drop (first + 1)).takeWhile Row.continuesRun = rows.extract first stop := by
  have hrun := hmaximal.isRun
  have hfirst : first < rows.length := hrun.first_lt_stop.trans_le hrun.stop_le
  have hdrop : rows.drop first = rows[first] :: rows.drop (first + 1) :=
    List.drop_eq_getElem_cons hfirst
  refine ⟨rows[first], ?_, hdrop, ?_⟩
  · exact Row.alignable_iff.mpr (hrun.mayAlign first _ le_rfl hrun.first_lt_stop
      (List.getElem?_eq_getElem hfirst))
  · have htake : (rows.drop (first + 1)).takeWhile Row.continuesRun =
        (rows.drop (first + 1)).take (stop - (first + 1)) := by
      refine takeWhile_eq_take ?_ ?_
      · intro i row hi hrow
        rw [List.getElem?_drop] at hrow
        exact Row.continuesRun_iff.mpr ⟨hrun.mayAlign _ row (by omega) (by omega) hrow,
          hrun.unbroken _ row (by omega) (by omega) hrow⟩
      · intro row hrow
        rw [List.getElem?_drop, Nat.add_sub_cancel' hrun.first_lt_stop] at hrow
        exact hmaximal.continuesRun_stop hrow
    have hcount : stop - first = stop - (first + 1) + 1 := by
      have := hrun.first_lt_stop
      omega
    rw [htake, List.extract_eq_take_drop, hdrop, hcount, List.take_succ_cons]

theorem getElem?_widths {i : Nat} (hfirst : first ≤ i) (hstop : i < stop) :
    (widths rows)[i]? = some (runWidth (rows.extract first stop)) := by
  obtain ⟨row, halign, hdrop, hextract⟩ := hmaximal.drop_eq
  have hlength : (rows.extract first stop).length = stop - first := by
    rw [List.extract_eq_take_drop, List.length_take, List.length_drop]
    have := hmaximal.isRun.stop_le
    omega
  obtain ⟨offset, rfl⟩ := Nat.exists_eq_add_of_le hfirst
  rw [← List.getElem?_drop, drop_widths hmaximal.breaksAt, hdrop, widths_cons, if_pos halign]
  dsimp only
  rw [hextract, List.getElem?_append_left (by rw [List.length_replicate]; omega),
    List.getElem?_replicate, if_pos (by omega)]

end IsMaximalRun

/-- Outside the runs keys are not padded. -/
theorem getElem?_widths_of_not_mayAlign {rows : List Row} {i : Nat} {row : Row}
    (hrow : rows[i]? = some row) (halign : ¬ row.MayAlign) : (widths rows)[i]? = some 0 := by
  have halign' : ¬ row.alignable = true := Row.alignable_iff.not.mpr halign
  have hbreaks : BreaksAt rows i := by
    rintro j above next rfl - hnext -
    obtain rfl := Option.some.inj (hrow.symm.trans hnext)
    rw [← Bool.not_eq_true, Row.continuesRun_iff]
    exact fun hcontinues => halign hcontinues.1
  obtain ⟨hlt, hget⟩ := List.getElem?_eq_some_iff.mp hrow
  rw [← Nat.add_zero i, ← List.getElem?_drop, drop_widths hbreaks, List.drop_eq_getElem_cons hlt,
    hget, widths_cons, if_neg halign', List.getElem?_cons_zero]

/-- The width of a run is the largest key width in it. -/
theorem max?_keyWidth {rows : List Row} (hrows : rows ≠ []) :
    (rows.map Row.keyWidth).max? = some (runWidth rows) := by
  rw [runWidth, List.foldl_max]
  cases hmax : (rows.map Row.keyWidth).max? with
  | none => simp [hrows] at hmax
  | some width => simp

/-- The widths of rows: those of a run are the largest key width in it, and all others are zero.
Every row that may be aligned is in just one run. -/
structure AlignsRuns (rows : List Row) (widths : List Nat) : Prop where
  length_eq : widths.length = rows.length
  mayAlign_iff : ∀ (i : Nat) (row : Row), rows[i]? = some row → (row.MayAlign ↔
    ∃! run : Nat × Nat, IsMaximalRun rows run.1 run.2 ∧ run.1 ≤ i ∧ i < run.2)
  inside : ∀ first stop, IsMaximalRun rows first stop → ∃ width,
    ((rows.extract first stop).map Row.keyWidth).max? = some width ∧
      ∀ i, first ≤ i → i < stop → widths[i]? = some width
  outside : ∀ (i : Nat) (row : Row), rows[i]? = some row → ¬ row.MayAlign → widths[i]? = some 0

theorem alignsRuns_widths (rows : List Row) : AlignsRuns rows (widths rows) := by
  constructor
  case length_eq => exact length_widths rows
  case mayAlign_iff =>
    intro i row hrow
    refine ⟨existsUnique_isMaximalRun hrow, ?_⟩
    rintro ⟨run, ⟨hmaximal, hfirst, hstop⟩, -⟩
    exact hmaximal.isRun.mayAlign i row hfirst hstop hrow
  case inside =>
    intro first stop hmaximal
    refine ⟨runWidth (rows.extract first stop), max?_keyWidth ?_, ?_⟩
    · obtain ⟨row, -, -, hextract⟩ := hmaximal.drop_eq
      rw [← hextract]
      exact List.cons_ne_nil _ _
    · exact fun i => hmaximal.getElem?_widths
  case outside => exact fun i row => getElem?_widths_of_not_mayAlign

/-- The text in front of a row: the rows above it, and what separates it from the last of them. -/
def textAbove (margin : String) (above : List (Row × Nat)) (row : Row) : String :=
  match above.getLast? with
  | some last => rows margin above ++ separator last.1.item row.item
  | none => ""

theorem rowsBelow_append (margin : String) (item : Item) (front back : List (Row × Nat)) (row : Row)
    (width : Nat) : rowsBelow margin item (front ++ (row, width) :: back) =
      rowsBelow margin item front ++
        separator ((front.getLast?.map (·.1.item)).getD item) row.item ++
          row.layout margin width ++ rowsBelow margin row.item back := by
  induction front generalizing item with
  | nil => simp [rowsBelow]
  | cons first front ih =>
      rw [List.cons_append, rowsBelow, ih, rowsBelow, List.getLast?_cons]
      cases front.getLast? <;> simp [String.append_assoc]

theorem rows_append (margin : String) (front back : List (Row × Nat)) (row : Row) (width : Nat) :
    rows margin (front ++ (row, width) :: back) =
      textAbove margin front row ++ row.layout margin width ++ rowsBelow margin row.item back := by
  cases front with
  | nil => simp [textAbove, rows]
  | cons first front =>
      rw [List.cons_append, rows, rowsBelow_append, textAbove, List.getLast?_cons, rows]
      cases front.getLast? <;> simp [String.append_assoc]

/-- The text is empty or ends with a line feed. -/
def EndsLine (text : String) : Prop :=
  ∀ c ∈ text.toList.getLast?, c = '\n'

theorem endsLine_append_of_getLast? (first : String) {second : String}
    (hlast : second.toList.getLast? = some '\n') : EndsLine (first ++ second) := by
  intro c hc
  rw [String.toList_append, List.getLast?_append, hlast] at hc
  exact (Option.some.inj hc).symm

theorem EndsLine.append {first second : String} (hfirst : EndsLine first)
    (hsecond : EndsLine second) : EndsLine (first ++ second) := by
  intro c hc
  rw [String.toList_append, List.getLast?_append] at hc
  rcases Option.or_eq_some_iff.mp hc with hc | ⟨-, hc⟩
  · exact hsecond c hc
  · exact hfirst c hc

theorem endsLine_lines (margin : String) (texts : List String) : EndsLine (lines margin texts) := by
  induction texts with
  | nil => simp [EndsLine, lines]
  | cons text texts ih => exact (endsLine_append_of_getLast? _ rfl).append ih

theorem endsLine_textAbove (margin : String) (above : List (Row × Nat)) (row : Row) :
    EndsLine (textAbove margin above row) := by
  rw [textAbove]
  split
  · refine endsLine_append_of_getLast? _ ?_
    rw [separator]
    split <;> rfl
  · simp [EndsLine]

theorem length_pad {width : Nat} {text : String} (htext : text.length ≤ width) :
    (pad width text).length = width := by
  rw [pad, spaces, String.length_append, String.length_ofList, List.length_replicate]
  omega

/-- In the text the item's `=` stands on a line of its own, behind the margin and a column of this
many characters that holds the item's keys. In front of the `=`, `above` is on the lines above,
and behind it is the value. -/
structure StandsInColumn (text above margin : String) (item : Item) (value : String) (width : Nat) :
    Prop where
  endsLine : EndsLine above
  text_eq : ∃ below, text = above ++ margin ++ pad width item.keyPath ++ " = " ++ value ++ below
  length_eq : (pad width item.keyPath).length = width

/-- The items of a body as they are laid out, with the widths of their columns. -/
def columnsOf (indent depth : Nat) (body : Body) : List (Row × Nat) :=
  (rowsOf indent depth body.items).zip (widths (rowsOf indent depth body.items))

theorem standsInColumn {indent depth : Nat} {body : Body} {i width : Nat} {item : Item}
    (hitem : (rowsOf indent depth body.items)[i]? = some ⟨item, item.valueLayout indent depth⟩)
    (hassigned : item.assigned = true)
    (hwidth : (widths (rowsOf indent depth body.items))[i]? = some width)
    (hle : item.keyPath.length ≤ width) :
    StandsInColumn (body.layout indent depth)
      (textAbove (margin indent depth) ((columnsOf indent depth body).take i)
          ⟨item, item.valueLayout indent depth⟩ ++
        lines (margin indent depth) item.comments.lead)
      (margin indent depth) item (item.valueLayout indent depth) width := by
  refine ⟨(endsLine_textAbove _ _ _).append (endsLine_lines _ _), ?_, length_pad hle⟩
  have hcolumn : (columnsOf indent depth body)[i]? =
      some (⟨item, item.valueLayout indent depth⟩, width) :=
    List.getElem?_zip_eq_some.mpr ⟨hitem, hwidth⟩
  obtain ⟨hlt, hget⟩ := List.getElem?_eq_some_iff.mp hcolumn
  have hcolumns : columnsOf indent depth body = (columnsOf indent depth body).take i ++
      (⟨item, item.valueLayout indent depth⟩, width) ::
        (columnsOf indent depth body).drop (i + 1) := by
    rw [← hget, List.getElem_cons_drop, List.take_append_drop]
  have hrows : (rows (margin indent depth) (columnsOf indent depth body)).isEmpty = false := by
    rw [isEmpty_rows, hcolumns]
    simp
  obtain ⟨below, hbelow⟩ := exists_foldl_addDangling (margin indent depth) body.dangling
  have hlayout : body.layout indent depth =
      rows (margin indent depth) (columnsOf indent depth body) ++ below := by
    obtain ⟨items, dangling⟩ := body
    rw [← hbelow _ hrows, Body.layout, Layout.body, columnsOf]
  rw [hlayout]
  conv in rows _ _ => rw [hcolumns, rows_append, Row.layout, if_pos hassigned]
  exact ⟨trailing item.comments.line ++ rowsBelow (margin indent depth) item
    ((columnsOf indent depth body).drop (i + 1)) ++ below, by simp only [String.append_assoc]⟩

/-- The keys of items whose `=` may be aligned are padded to the widest of their run, and other
keys are not, so that in a body the `=` of a run stand behind columns of one width. -/
theorem widths_align_runs :
    (∀ rows : List Row, AlignsRuns rows (widths rows)) ∧
    ∀ indent depth (body : Body) first stop,
      IsMaximalRun (rowsOf indent depth body.items) first stop → ∃ width,
        ∀ i item, first ≤ i → i < stop → body.items[i]? = some item →
          StandsInColumn (body.layout indent depth)
            (textAbove (margin indent depth) ((columnsOf indent depth body).take i)
                ⟨item, item.valueLayout indent depth⟩ ++
              lines (margin indent depth) item.comments.lead)
            (margin indent depth) item (item.valueLayout indent depth) width := by
  refine ⟨alignsRuns_widths, ?_⟩
  intro indent depth body first stop hmaximal
  obtain ⟨width, hwidest, hwidths⟩ := (alignsRuns_widths _).inside first stop hmaximal
  refine ⟨width, fun i item hfirst hstop hitem => ?_⟩
  have hrow : (rowsOf indent depth body.items)[i]? =
      some ⟨item, item.valueLayout indent depth⟩ := by
    rw [rowsOf_eq_map, List.getElem?_map, hitem]
    rfl
  have halign := hmaximal.isRun.mayAlign i _ hfirst hstop hrow
  have hextract : Row.mk item (item.valueLayout indent depth) ∈
      (rowsOf indent depth body.items).extract first stop := by
    have hindex : ((rowsOf indent depth body.items).extract first stop)[i - first]? =
        some ⟨item, item.valueLayout indent depth⟩ := by
      rw [List.extract_eq_take_drop, List.getElem?_take_of_lt (by omega), List.getElem?_drop,
        Nat.add_sub_cancel' hfirst, hrow]
    exact List.mem_of_getElem? hindex
  exact standsInColumn hrow halign.1 (hwidths i hfirst hstop)
    ((List.max?_eq_some_iff.mp hwidest).2 _ (List.mem_map_of_mem hextract))

end Layout

end HclEditor
