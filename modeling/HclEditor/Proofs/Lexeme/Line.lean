import Mathlib
import HclEditor.Document.Lexeme

/-!
# Runs of characters and lines

A lexeme that is the longest run of some class of characters ends where the class ends,
whatever stands behind. A line is the run up to the next line feed.
-/

namespace HclEditor.Lexeme

/-- The text is empty or starts with a character of the class. -/
def StartsIn (p : Char → Bool) (cs : List Char) : Prop :=
  ∀ c ∈ cs.head?, p c = true

@[simp] theorem startsIn_nil (p : Char → Bool) : StartsIn p [] := by
  simp [StartsIn]

@[simp] theorem startsIn_cons {p : Char → Bool} {c : Char} {cs : List Char} :
    StartsIn p (c :: cs) ↔ p c = true := by
  simp [StartsIn]

/-- Nothing of a text that starts outside the class belongs to a run. -/
theorem takeWhile_eq_nil {p q : Char → Bool} (hdisjoint : ∀ c, q c = true → p c = false)
    {rest : List Char} (hrest : StartsIn q rest) : rest.takeWhile p = [] := by
  cases rest with
  | nil => rfl
  | cons c cs => simp [hdisjoint c (startsIn_cons.mp hrest)]

/-- A text that starts outside the class does not lengthen the run in front of it. -/
theorem takeWhile_append_of_startsIn {p q : Char → Bool}
    (hdisjoint : ∀ c, q c = true → p c = false) (cs : List Char) {rest : List Char}
    (hrest : StartsIn q rest) : (cs ++ rest).takeWhile p = cs.takeWhile p := by
  induction cs with
  | nil => exact takeWhile_eq_nil hdisjoint hrest
  | cons c cs ih => by_cases hc : p c <;> simp [hc, ih]

/-- A run is not changed by cutting the text somewhere behind it. -/
theorem takeWhile_take {p : Char → Bool} {cs : List Char} {n : Nat}
    (hlength : (cs.takeWhile p).length ≤ n) : (cs.take n).takeWhile p = cs.takeWhile p := by
  rw [← List.take_takeWhile, List.take_of_length_le hlength]

/-- A run is its own longest run. -/
theorem takeWhile_take_run (p : Char → Bool) (cs : List Char) :
    (cs.takeWhile p).takeWhile p = cs.takeWhile p := by
  rw [List.takeWhile_eq_self_iff]
  exact fun c hc => List.mem_takeWhile_imp hc

/-- Cutting the text cuts the run. -/
theorem length_takeWhile_take (p : Char → Bool) (cs : List Char) (n : Nat) :
    ((cs.take n).takeWhile p).length = min n (cs.takeWhile p).length := by
  rw [← List.take_takeWhile, List.length_take]

/-- The text is empty or goes on with a line feed. -/
abbrev AtLineEnd (rest : List Char) : Prop :=
  StartsIn (· == '\n') rest

theorem not_mem_lineRest (cs : List Char) : '\n' ∉ lineRest cs := by
  intro hmem
  have hfeed := List.mem_takeWhile_imp hmem
  simp at hfeed

theorem lineRest_of_not_mem {line : List Char} (hline : '\n' ∉ line) :
    lineRest line = line := by
  rw [lineRest, List.takeWhile_eq_self_iff]
  intro c hc
  simp only [bne_iff_ne, ne_eq]
  exact fun heq => hline (heq ▸ hc)

theorem lineRest_append {line : List Char} (hline : '\n' ∉ line) (rest : List Char) :
    lineRest (line ++ rest) = line ++ lineRest rest := by
  rw [lineRest, List.takeWhile_append_of_pos]
  · rfl
  · intro c hc
    simp only [bne_iff_ne, ne_eq]
    exact fun heq => hline (heq ▸ hc)

theorem lineRest_append_of_atLineEnd (cs : List Char) {rest : List Char}
    (hrest : AtLineEnd rest) : lineRest (cs ++ rest) = lineRest cs := by
  refine takeWhile_append_of_startsIn (q := (· == '\n')) ?_ cs hrest
  intro c hc
  simpa using hc

/-- Behind the rest of the line stands a line feed, if anything. -/
theorem atLineEnd_drop_lineRest (cs : List Char) :
    AtLineEnd (cs.drop (lineRest cs).length) := by
  induction cs with
  | nil => simp
  | cons c cs ih =>
      by_cases hc : c = '\n'
      · simp [lineRest, hc]
      · simpa [lineRest, hc] using ih

theorem lineRest_append_drop (cs : List Char) :
    lineRest cs ++ cs.drop (lineRest cs).length = cs := by
  induction cs with
  | nil => rfl
  | cons c cs ih =>
      by_cases hc : c = '\n'
      · simp [lineRest, hc]
      · simpa [lineRest, hc] using ih

/-- The lines with a line feed behind each. -/
def terminated (lines : List (List Char)) : List Char :=
  lines.flatMap (· ++ ['\n'])

@[simp] theorem terminated_nil : terminated [] = [] :=
  rfl

@[simp] theorem terminated_cons (line : List Char) (lines : List (List Char)) :
    terminated (line :: lines) = line ++ '\n' :: terminated lines := by
  simp [terminated]

/-- Split at its line feeds, a text gives the lines that it was made of. -/
theorem splitOn_terminated {lines : List (List Char)} (hlines : ∀ line ∈ lines, '\n' ∉ line)
    {last : List Char} (hlast : '\n' ∉ last) :
    (terminated lines ++ last).splitOn '\n' = lines ++ [last] := by
  induction lines with
  | nil => exact List.splitOn_eq_singleton hlast
  | cons line lines ih =>
      obtain ⟨hline, hlines⟩ := List.forall_mem_cons.mp hlines
      rw [terminated_cons, List.append_assoc, List.cons_append,
        List.splitOn_append_cons_self_of_not_mem hline, ih hlines, List.cons_append]

end HclEditor.Lexeme
