import Mathlib
import HclEditor.Document.Layout

/-!
# The open run

Keys are padded by a single pass over the rows, which keeps the index at which a run is open
and fills in the widths of the run when it ends. Every row from that index on goes on with
the run, the widths above it are final, and below it they are zero. So the pass cuts the
rows into runs from above, each as long as it can be.
-/

namespace HclEditor.Layout

/-- The widths of rows that are cut into runs one by one. -/
def runWidths : List Row → List Nat
  | [] => []
  | row :: rows =>
      if row.alignable then
        let run := row :: rows.takeWhile Row.continuesRun
        List.replicate run.length (runWidth run) ++ runWidths (rows.drop (run.length - 1))
      else 0 :: runWidths rows
termination_by rows => rows.length

/-- The rows can all be aligned, and all but the first go on with the one above. -/
structure IsOpen (run : List Row) : Prop where
  alignable : ∀ row ∈ run, row.alignable = true
  continues : ∀ row ∈ run.tail, row.continuesRun = true

theorem isOpen_nil : IsOpen [] :=
  ⟨by simp, by simp⟩

theorem isOpen_singleton {row : Row} (halign : row.alignable = true) : IsOpen [row] :=
  ⟨by simpa using halign, by simp⟩

theorem Row.alignable_of_continuesRun {row : Row} (hcontinues : row.continuesRun = true) :
    row.alignable = true :=
  (Bool.and_eq_true_iff.mp hcontinues).1

theorem IsOpen.concat {run : List Row} (hrun : IsOpen run) {row : Row}
    (hcontinues : row.continuesRun = true) : IsOpen (run ++ [row]) := by
  constructor
  · intro other hother
    rcases List.mem_append.mp hother with hother | hother
    · exact hrun.alignable other hother
    · rw [List.mem_singleton.mp hother]
      exact Row.alignable_of_continuesRun hcontinues
  · intro other hother
    cases run with
    | nil => simp at hother
    | cons first run =>
        rw [List.cons_append, List.tail_cons] at hother
        rcases List.mem_append.mp hother with hother | hother
        · exact hrun.continues other hother
        · rwa [List.mem_singleton.mp hother]

/-- A run that nothing goes on with is cut off as a whole. -/
theorem IsOpen.runWidths_append {run : List Row} (hrun : IsOpen run) {rest : List Row}
    (hrest : ∀ row ∈ rest.head?, row.continuesRun = false) :
    runWidths (run ++ rest) = List.replicate run.length (runWidth run) ++ runWidths rest := by
  cases run with
  | nil => rfl
  | cons row run =>
      have hstop : rest.takeWhile Row.continuesRun = [] := by
        cases rest with
        | nil => rfl
        | cons next rest =>
            apply List.takeWhile_cons_of_neg
            simpa using hrest next rfl
      have hcontinues : ∀ other ∈ run, other.continuesRun = true := hrun.continues
      have htake : (run ++ rest).takeWhile Row.continuesRun = run := by
        rw [List.takeWhile_append_of_pos hcontinues, hstop, List.append_nil]
      rw [List.cons_append, runWidths, if_pos (hrun.alignable row List.mem_cons_self)]
      simp only [htake, List.length_cons, Nat.add_sub_cancel, List.drop_left]

namespace Aligning

/-- What holds on the way through the rows: those above the open run have their widths, and the
open run and the rows below it are cut into runs from the open one on. -/
structure Opens (above run rest : List Row) (closed : List Nat) (state : Aligning) : Prop where
  isOpen : IsOpen run
  start_eq : state.start = above.length
  length_eq : closed.length = above.length
  widths_eq : state.widths = closed ++ List.replicate (run.length + rest.length) 0
  runWidths_eq : runWidths (above ++ (run ++ rest)) = closed ++ runWidths (run ++ rest)

/-- The row that the pass looks at is the first one below the open run. -/
theorem getElem?_open (above run rest : List Row) :
    (above ++ (run ++ rest))[above.length + run.length]? = rest.head? := by
  rw [← List.append_assoc, ← List.length_append, List.getElem?_append_right le_rfl, Nat.sub_self,
    ← List.head?_eq_getElem?]

namespace Opens

variable {above run rest : List Row} {closed : List Nat} {state : Aligning}

/-- When the open run ends, its rows receive the run's width. -/
theorem step_widths (hopens : Opens above run rest closed state)
    (hend : ∀ row ∈ rest.head?, row.continuesRun = false) :
    (state.step (above ++ (run ++ rest)) (above.length + run.length)).widths =
      closed ++ List.replicate run.length (runWidth run) ++ List.replicate rest.length 0 := by
  have hextract : (above ++ (run ++ rest)).extract above.length (above.length + run.length) =
      run := by
    simp [List.extract_eq_take_drop]
  have hnext : ¬ rest.head?.any Row.continuesRun = true := by
    cases hhead : rest.head? with
    | none => simp
    | some row => simpa using hend row hhead
  rw [step, getElem?_open, if_neg hnext]
  dsimp only
  rw [hopens.start_eq, hextract, hopens.widths_eq, ← hopens.length_eq]
  split
  next hlt => simp [fill]
  next hlt =>
    have hrun : run = [] := by
      apply List.eq_nil_of_length_eq_zero
      omega
    simp [hrun]

/-- A row that goes on with the open run belongs to it. -/
theorem step_of_continuesRun {row : Row} (hopens : Opens above run (row :: rest) closed state)
    (hcontinues : row.continuesRun = true) :
    Opens above (run ++ [row]) rest closed
      (state.step (above ++ (run ++ row :: rest)) (above.length + run.length)) := by
  have hsame : state.step (above ++ (run ++ row :: rest)) (above.length + run.length) = state := by
    rw [Aligning.step, getElem?_open]
    exact if_pos hcontinues
  rw [hsame]
  constructor
  · exact hopens.isOpen.concat hcontinues
  · exact hopens.start_eq
  · exact hopens.length_eq
  · rw [hopens.widths_eq, List.length_append, List.length_singleton, List.length_cons]
    congr 2
    omega
  · simpa using hopens.runWidths_eq

/-- The index behind the open run is the start of the next one if the row there can be aligned. -/
theorem start_step {row : Row} (state : Aligning) (hcontinues : row.continuesRun = false) :
    (state.step (above ++ (run ++ row :: rest)) (above.length + run.length)).start =
      if row.alignable then above.length + run.length else above.length + run.length + 1 := by
  rw [Aligning.step, getElem?_open, List.head?_cons, if_neg (by simp [hcontinues])]
  rfl

/-- When the open run ends, the rows below it are cut into runs by themselves. -/
theorem runWidths_eq_of_end (hopens : Opens above run rest closed state)
    (hend : ∀ row ∈ rest.head?, row.continuesRun = false) :
    runWidths (above ++ (run ++ rest)) =
      closed ++ List.replicate run.length (runWidth run) ++ runWidths rest := by
  rw [hopens.runWidths_eq, hopens.isOpen.runWidths_append hend, List.append_assoc]

/-- A row that can be aligned and does not go on with the open run starts another one. -/
theorem step_of_alignable {row : Row} (hopens : Opens above run (row :: rest) closed state)
    (hcontinues : row.continuesRun = false) (halign : row.alignable = true) :
    Opens (above ++ run) [row] rest (closed ++ List.replicate run.length (runWidth run))
      (state.step (above ++ (run ++ row :: rest)) (above.length + run.length)) := by
  have hend : ∀ next ∈ (row :: rest).head?, next.continuesRun = false := by
    simpa using hcontinues
  constructor
  · exact isOpen_singleton halign
  · rw [start_step state hcontinues, halign, if_pos rfl, List.length_append]
  · rw [List.length_append, List.length_append, List.length_replicate, hopens.length_eq]
  · rw [hopens.step_widths hend, List.length_cons, List.length_singleton, Nat.add_comm]
  · rw [List.singleton_append, List.append_assoc]
    exact hopens.runWidths_eq_of_end hend

/-- A row that cannot be aligned stands by itself, and no run is open behind it. -/
theorem step_of_not_alignable {row : Row} (hopens : Opens above run (row :: rest) closed state)
    (hcontinues : row.continuesRun = false) (halign : row.alignable = false) :
    Opens (above ++ run ++ [row]) [] rest
      (closed ++ List.replicate run.length (runWidth run) ++ [0])
      (state.step (above ++ (run ++ row :: rest)) (above.length + run.length)) := by
  have hend : ∀ next ∈ (row :: rest).head?, next.continuesRun = false := by
    simpa using hcontinues
  have halone : runWidths (row :: rest) = 0 :: runWidths rest := by
    rw [runWidths, if_neg (by simp [halign])]
  constructor
  · exact isOpen_nil
  · rw [start_step state hcontinues, halign, if_neg Bool.false_ne_true, List.length_append,
      List.length_append, List.length_singleton]
  · simp [hopens.length_eq]
  · rw [hopens.step_widths hend, List.length_cons, List.replicate_succ]
    simp
  · have hall := hopens.runWidths_eq_of_end hend
    rw [halone] at hall
    simpa using hall

/-- A row goes on with the open run, or it starts another one, or it stands by itself. -/
theorem step {row : Row} (hopens : Opens above run (row :: rest) closed state) :
    ∃ above' run' closed', above' ++ (run' ++ rest) = above ++ (run ++ row :: rest) ∧
      above'.length + run'.length = above.length + run.length + 1 ∧
      Opens above' run' rest closed'
        (state.step (above ++ (run ++ row :: rest)) (above.length + run.length)) := by
  cases hcontinues : row.continuesRun with
  | true =>
      refine ⟨_, _, _, ?_, ?_, hopens.step_of_continuesRun hcontinues⟩
      · simp
      · simp
        omega
  | false =>
      cases halign : row.alignable with
      | true =>
          refine ⟨_, _, _, ?_, ?_, hopens.step_of_alignable hcontinues halign⟩
          · simp
          · simp
      | false =>
          refine ⟨_, _, _, ?_, ?_, hopens.step_of_not_alignable hcontinues halign⟩
          · simp
          · simp
            omega

/-- The pass over the rows that are left cuts them into runs. -/
theorem foldl_step (hopens : Opens above run rest closed state) :
    ((List.range' (above.length + run.length) (rest.length + 1)).foldl
      (Aligning.step (above ++ (run ++ rest))) state).widths =
        runWidths (above ++ (run ++ rest)) := by
  induction rest generalizing above run closed state with
  | nil =>
      have hend : ∀ row ∈ ([] : List Row).head?, row.continuesRun = false := by simp
      rw [hopens.runWidths_eq_of_end hend]
      simpa [runWidths] using hopens.step_widths hend
  | cons row rest ih =>
      obtain ⟨above', run', closed', hrows, hindex, hnext⟩ := hopens.step
      have hall := ih hnext
      rw [hrows, hindex] at hall
      rw [List.length_cons, List.range'_succ, List.foldl_cons]
      exact hall

end Opens

end Aligning

/-- The pass cuts the rows into runs. -/
theorem widths_eq_runWidths (rows : List Row) : widths rows = runWidths rows := by
  have hopens : Aligning.Opens [] [] rows [] ⟨List.replicate rows.length 0, 0⟩ :=
    ⟨isOpen_nil, rfl, rfl, by simp, rfl⟩
  rw [widths, List.range_eq_range']
  exact hopens.foldl_step

@[simp] theorem widths_nil : widths [] = [] := by
  rw [widths_eq_runWidths, runWidths]

/-- A run at the beginning has one width, and what is below it has the widths that it has by
itself. -/
theorem widths_cons (row : Row) (rows : List Row) :
    widths (row :: rows) =
      if row.alignable then
        let run := row :: rows.takeWhile Row.continuesRun
        List.replicate run.length (runWidth run) ++ widths (rows.drop (run.length - 1))
      else 0 :: widths rows := by
  simp only [widths_eq_runWidths]
  rw [runWidths]

/-- Every row has a width. -/
theorem length_widths (rows : List Row) : (widths rows).length = rows.length := by
  induction hsize : rows.length using Nat.strong_induction_on generalizing rows with
  | _ size ih =>
      cases rows with
      | nil =>
          rw [widths_nil]
          exact hsize
      | cons row rows =>
          rw [List.length_cons] at hsize
          rw [widths_cons]
          split
          · have hrun := (List.takeWhile_sublist Row.continuesRun (l := rows)).length_le
            dsimp only
            rw [List.length_append, List.length_replicate, ih _ ?_ _ rfl, List.length_drop,
              List.length_cons]
            · omega
            · rw [List.length_drop, List.length_cons]
              omega
          · rw [List.length_cons, ih _ (by omega) rows rfl, hsize]

end HclEditor.Layout
