import Mathlib
import HclEditor.Proofs.Lexeme.Line

/-!
# How far numbers reach

A number is read again from its own characters alone, wherever else the text behind it is
cut off, and from these characters in front of a gap or a mark. Other text behind a number may
belong to it: a digit, a fraction, an exponent, or the marker of a hexadecimal number.
-/

namespace HclEditor.Lexeme

/-- The characters that end every word and every number: the gaps and the marks. -/
def breaks : List Char :=
  [' ', '\t', '\r', '\n', '=', '{', '}', '[', ']', ',']

/-- The character is a gap or a mark. -/
def isBreak (c : Char) : Bool :=
  breaks.contains c

/-- What holds of the gaps and marks one by one holds of all of them. -/
theorem of_isBreak {p : Char → Bool} (hp : breaks.all p = true) {c : Char}
    (hc : isBreak c = true) : p c = true :=
  List.all_eq_true.mp hp c (List.contains_iff_mem.mp hc)

theorem isDigit_of_isBreak (c : Char) (hc : isBreak c = true) : c.isDigit = false := by
  simpa using of_isBreak (p := fun c => !c.isDigit) (by decide) hc

theorem isHexDigit_of_isBreak (c : Char) (hc : isBreak c = true) : isHexDigit c = false := by
  simpa using of_isBreak (p := fun c => !isHexDigit c) (by decide) hc

theorem continuesIdentifier_of_isBreak (c : Char) (hc : isBreak c = true) :
    continuesIdentifier c = false := by
  simpa using of_isBreak (p := fun c => !continuesIdentifier c) (by decide +kernel) hc

theorem ne_of_isBreak {c : Char} (hc : isBreak c = true) {d : Char}
    (hd : isBreak d = false) : c ≠ d := by
  rintro rfl
  rw [hc] at hd
  cases hd

theorem signLength_le_length (cs : List Char) : signLength cs ≤ cs.length := by
  unfold signLength
  split <;> simp

theorem digitsLength_le_length (cs : List Char) : digitsLength cs ≤ cs.length :=
  (List.takeWhile_sublist _).length_le

theorem fractionLength_le_length (cs : List Char) : fractionLength cs ≤ cs.length := by
  unfold fractionLength
  split
  next cs =>
    have hdigits := digitsLength_le_length cs
    split
    · exact Nat.zero_le _
    · simpa using hdigits
  next => exact Nat.zero_le _

theorem exponentLength_le_length (cs : List Char) : exponentLength cs ≤ cs.length := by
  unfold exponentLength
  split
  next c cs =>
    have hdigits := digitsLength_le_length (cs.drop (signLength cs))
    have hsign := signLength_le_length cs
    rw [List.length_drop] at hdigits
    rw [List.length_cons]
    dsimp only
    split
    · split <;> omega
    · exact Nat.zero_le _
  next => exact Nat.zero_le _

/-- What stands behind the marker of a hexadecimal number, if the text starts with one. -/
def hexDigits? : List Char → Option (List Char)
  | '0' :: 'x' :: rest => some rest
  | '0' :: 'X' :: rest => some rest
  | _ => none

theorem hexDigits?_eq_some {cs digits : List Char} (hcs : hexDigits? cs = some digits) :
    cs = '0' :: 'x' :: digits ∨ cs = '0' :: 'X' :: digits := by
  unfold hexDigits? at hcs
  split at hcs <;> simp_all

theorem unsignedNumber_of_hexDigits? {cs digits : List Char}
    (hcs : hexDigits? cs = some digits) :
    unsignedNumber cs = (.number, (digits.takeWhile isHexDigit).length + 2) := by
  rcases hexDigits?_eq_some hcs with rfl | rfl <;> rfl

theorem unsignedNumber_of_hexDigits?_eq_none {cs : List Char} (hcs : hexDigits? cs = none) :
    unsignedNumber cs =
      (if fractionLength (cs.drop (digitsLength cs)) +
          exponentLength (cs.drop (digitsLength cs +
            fractionLength (cs.drop (digitsLength cs)))) = 0 then .number else .float,
        digitsLength cs + fractionLength (cs.drop (digitsLength cs)) +
          exponentLength (cs.drop (digitsLength cs +
            fractionLength (cs.drop (digitsLength cs))))) := by
  rw [unsignedNumber.eq_3]
  · rintro rest rfl
    cases hcs
  · rintro rest rfl
    cases hcs

section Behind

variable {rest : List Char} (hrest : StartsIn isBreak rest)
include hrest

theorem digitsLength_append (cs : List Char) :
    digitsLength (cs ++ rest) = digitsLength cs := by
  rw [digitsLength, takeWhile_append_of_startsIn isDigit_of_isBreak _ hrest, digitsLength]

theorem fractionLength_append (cs : List Char) :
    fractionLength (cs ++ rest) = fractionLength cs := by
  cases cs with
  | nil =>
      cases rest with
      | nil => rfl
      | cons c more =>
          have hpoint : c ≠ '.' := ne_of_isBreak (startsIn_cons.mp hrest) (by decide)
          simp [fractionLength, hpoint]
  | cons c cs =>
      by_cases hpoint : c = '.'
      · subst hpoint
        simp only [List.cons_append, fractionLength, digitsLength_append hrest]
      · simp [fractionLength, hpoint]

theorem signLength_append (cs : List Char) :
    signLength (cs ++ rest) = signLength cs := by
  cases cs with
  | nil =>
      cases rest with
      | nil => rfl
      | cons c more =>
          have hplus : c ≠ '+' := ne_of_isBreak (startsIn_cons.mp hrest) (by decide)
          have hminus : c ≠ '-' := ne_of_isBreak (startsIn_cons.mp hrest) (by decide)
          simp [signLength, hplus, hminus]
  | cons c cs =>
      by_cases hplus : c = '+'
      · simp [signLength, hplus]
      · by_cases hminus : c = '-' <;> simp [signLength, hplus, hminus]

theorem exponentLength_append (cs : List Char) :
    exponentLength (cs ++ rest) = exponentLength cs := by
  cases cs with
  | nil =>
      cases rest with
      | nil => rfl
      | cons c more =>
          have hlower : c ≠ 'e' := ne_of_isBreak (startsIn_cons.mp hrest) (by decide)
          have hupper : c ≠ 'E' := ne_of_isBreak (startsIn_cons.mp hrest) (by decide)
          simp [exponentLength, hlower, hupper]
  | cons c cs =>
      have hsign := signLength_append hrest cs
      have hle := signLength_le_length cs
      simp only [List.cons_append, exponentLength, hsign,
        List.drop_append_of_le_length hle, digitsLength_append hrest]

/-- A gap or a mark cannot complete the marker of a hexadecimal number. -/
theorem hexDigits?_append (cs : List Char) :
    hexDigits? (cs ++ rest) = (hexDigits? cs).map (· ++ rest) := by
  match cs, rest, hrest with
  | [], [], _ => rfl
  | [], c :: rest, hrest =>
      have hzero : c ≠ '0' := ne_of_isBreak (startsIn_cons.mp hrest) (by decide)
      simp [hexDigits?, hzero]
  | [c], [], _ => simp [hexDigits?]
  | [c], d :: rest, hrest =>
      have hlower : d ≠ 'x' := ne_of_isBreak (startsIn_cons.mp hrest) (by decide)
      have hupper : d ≠ 'X' := ne_of_isBreak (startsIn_cons.mp hrest) (by decide)
      simp [hexDigits?, hlower, hupper]
  | c :: d :: cs, rest, _ =>
      simp only [List.cons_append, hexDigits?]
      split <;> simp_all

/-- A gap or a mark behind a number does not belong to it. -/
theorem unsignedNumber_append (cs : List Char) :
    unsignedNumber (cs ++ rest) = unsignedNumber cs := by
  cases hcs : hexDigits? cs with
  | some digits =>
      have happend : hexDigits? (cs ++ rest) = some (digits ++ rest) := by
        rw [hexDigits?_append hrest, hcs, Option.map_some]
      rw [unsignedNumber_of_hexDigits? hcs, unsignedNumber_of_hexDigits? happend,
        takeWhile_append_of_startsIn isHexDigit_of_isBreak _ hrest]
  | none =>
      have happend : hexDigits? (cs ++ rest) = none := by
        rw [hexDigits?_append hrest, hcs, Option.map_none]
      have hwhole := digitsLength_le_length cs
      have hfraction := fractionLength_le_length (cs.drop (digitsLength cs))
      rw [List.length_drop] at hfraction
      rw [unsignedNumber_of_hexDigits?_eq_none hcs, unsignedNumber_of_hexDigits?_eq_none happend,
        digitsLength_append hrest, List.drop_append_of_le_length hwhole,
        fractionLength_append hrest, List.drop_append_of_le_length (by omega),
        exponentLength_append hrest]

end Behind

section Cut

theorem digitsLength_take (cs : List Char) (n : Nat) :
    digitsLength (cs.take n) = min n (digitsLength cs) :=
  length_takeWhile_take _ _ _

/-- Cutting a text behind its fraction leaves the fraction as it is. -/
theorem fractionLength_take {cs : List Char} {n : Nat} (hlength : fractionLength cs ≤ n) :
    fractionLength (cs.take n) = fractionLength cs := by
  cases cs with
  | nil => simp
  | cons c cs =>
      cases n with
      | zero => exact (Nat.le_zero.mp hlength).symm
      | succ n =>
          by_cases hpoint : c = '.'
          · subst hpoint
            simp only [fractionLength, List.take_succ_cons, digitsLength_take] at hlength ⊢
            split at hlength <;> split <;> omega
          · simp [fractionLength, hpoint]

theorem signLength_take (cs : List Char) (n : Nat) :
    signLength (cs.take n) = min n (signLength cs) := by
  cases cs with
  | nil => simp [signLength]
  | cons c cs =>
      cases n with
      | zero => simp [signLength]
      | succ n =>
          have hle : signLength (c :: cs) ≤ 1 := by
            unfold signLength
            split <;> omega
          rw [List.take_succ_cons, Nat.min_eq_right (by omega)]
          unfold signLength
          split <;> simp_all

/-- Cutting a text behind its exponent leaves the exponent as it is. -/
theorem exponentLength_take {cs : List Char} {n : Nat} (hlength : exponentLength cs ≤ n) :
    exponentLength (cs.take n) = exponentLength cs := by
  cases cs with
  | nil => simp
  | cons c cs =>
      cases n with
      | zero => exact (Nat.le_zero.mp hlength).symm
      | succ n =>
          by_cases hletter : c = 'e' ∨ c = 'E'
          · simp only [exponentLength, List.take_succ_cons, if_pos hletter] at hlength ⊢
            rcases Nat.lt_or_ge n (signLength cs) with hsign | hsign
            · have hnone : digitsLength ((cs.take n).drop (signLength (cs.take n))) = 0 := by
                rw [signLength_take, Nat.min_eq_left hsign.le, List.drop_take, Nat.sub_self]
                rfl
              rw [if_pos hnone]
              split at hlength
              next hdigits => rw [if_pos hdigits]
              next => omega
            · rw [signLength_take, Nat.min_eq_right hsign, List.drop_take, digitsLength_take]
              split at hlength <;> split <;> omega
          · simp [exponentLength, hletter]

/-- Cutting a text behind two characters does not change how its number is read. -/
theorem hexDigits?_take {cs : List Char} {n : Nat} :
    hexDigits? (cs.take (n + 2)) = (hexDigits? cs).map (·.take n) := by
  match cs with
  | [] => rfl
  | [c] => simp [hexDigits?]
  | c :: d :: cs =>
      simp only [List.take_succ_cons, hexDigits?]
      split <;> simp_all

theorem hexDigits?_take_eq_none {cs : List Char} (hcs : hexDigits? cs = none) (n : Nat) :
    hexDigits? (cs.take n) = none := by
  match n with
  | 0 => rfl
  | 1 => cases cs <;> simp [hexDigits?]
  | n + 2 => rw [hexDigits?_take, hcs, Option.map_none]

/-- Cutting a text behind its number leaves the number as it is. -/
theorem unsignedNumber_take {cs : List Char} {m : Nat} (hle : (unsignedNumber cs).2 ≤ m) :
    unsignedNumber (cs.take m) = unsignedNumber cs := by
  cases hhex : hexDigits? cs with
  | some digits =>
      rw [unsignedNumber_of_hexDigits? hhex] at hle ⊢
      obtain ⟨m, rfl⟩ := Nat.exists_eq_add_of_le' (Nat.le_of_add_left_le hle)
      have htake : hexDigits? (cs.take (m + 2)) = some (digits.take m) := by
        rw [hexDigits?_take, hhex, Option.map_some]
      rw [unsignedNumber_of_hexDigits? htake, takeWhile_take (Nat.add_le_add_iff_right.mp hle)]
  | none =>
      rw [unsignedNumber_of_hexDigits?_eq_none hhex] at hle
      dsimp only at hle
      have hwhole : digitsLength (cs.take m) = digitsLength cs := by
        rw [digitsLength_take]
        omega
      have hfraction : fractionLength ((cs.take m).drop (digitsLength cs)) =
          fractionLength (cs.drop (digitsLength cs)) := by
        rw [List.drop_take]
        exact fractionLength_take (by omega)
      have hexponent : exponentLength ((cs.take m).drop (digitsLength cs +
          fractionLength (cs.drop (digitsLength cs)))) =
          exponentLength (cs.drop (digitsLength cs +
            fractionLength (cs.drop (digitsLength cs)))) := by
        rw [List.drop_take]
        exact exponentLength_take (by omega)
      rw [unsignedNumber_of_hexDigits?_eq_none (hexDigits?_take_eq_none hhex m), hwhole,
        hfraction, hexponent, unsignedNumber_of_hexDigits?_eq_none hhex]

/-- A number lies within its text. -/
theorem unsignedNumber_le_length (cs : List Char) : (unsignedNumber cs).2 ≤ cs.length := by
  cases hhex : hexDigits? cs with
  | some digits =>
      have hdigits := (List.takeWhile_sublist (l := digits) isHexDigit).length_le
      rw [unsignedNumber_of_hexDigits? hhex]
      rcases hexDigits?_eq_some hhex with rfl | rfl <;>
        simp only [List.length_cons] <;> omega
  | none =>
      have hwhole := digitsLength_le_length cs
      have hfraction := fractionLength_le_length (cs.drop (digitsLength cs))
      have hexponent := exponentLength_le_length (cs.drop (digitsLength cs +
        fractionLength (cs.drop (digitsLength cs))))
      rw [List.length_drop] at hfraction hexponent
      rw [unsignedNumber_of_hexDigits?_eq_none hhex]
      dsimp only
      omega

/-- The first digit belongs to the number. -/
theorem unsignedNumber_pos {c : Char} (hdigit : c.isDigit = true) (cs : List Char) :
    0 < (unsignedNumber (c :: cs)).2 := by
  cases hhex : hexDigits? (c :: cs) with
  | some digits => simp [unsignedNumber_of_hexDigits? hhex]
  | none => simp [unsignedNumber_of_hexDigits?_eq_none hhex, digitsLength, hdigit]

/-- Numbers are whole numbers or floats. -/
theorem unsignedNumber_kind (cs : List Char) :
    (unsignedNumber cs).1 = .number ∨ (unsignedNumber cs).1 = .float := by
  cases hhex : hexDigits? cs with
  | some digits => exact .inl (by rw [unsignedNumber_of_hexDigits? hhex])
  | none =>
      rw [unsignedNumber_of_hexDigits?_eq_none hhex]
      dsimp only
      split
      · exact .inl rfl
      · exact .inr rfl

end Cut

end HclEditor.Lexeme
