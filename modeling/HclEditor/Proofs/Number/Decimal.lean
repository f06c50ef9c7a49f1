import Mathlib
import HclEditor.Number.Decimal
import HclEditor.Proofs.Token.Number

/-!
# How decimals are written

A decimal is digits with an optional point among or around them, and an optional exponent. A
reader of documents wants more of a number with a point: digits on either side of it. So a
decimal that starts with a digit is one number of a document exactly if its point is followed
by a digit.
-/

namespace HclEditor

namespace Number.Decimal

/-- Nothing, or a point and digits behind it. -/
inductive IsFraction : List Char → Prop
  | none : IsFraction []
  | point {digits : List Char} (hdigits : ∀ c ∈ digits, c.isDigit = true) :
      IsFraction ('.' :: digits)

/-- Nothing, or a letter and behind it at least one digit, perhaps with a sign in front. -/
inductive IsExponent : List Char → Prop
  | none : IsExponent []
  | scale {letter : Char} {sign digits : List Char} (hletter : letter = 'e' ∨ letter = 'E')
      (hsign : sign = [] ∨ sign = ['+'] ∨ sign = ['-']) (hne : digits ≠ [])
      (hdigits : ∀ c ∈ digits, c.isDigit = true) : IsExponent (letter :: (sign ++ digits))

/-- What is read as an exponent has digits behind its sign. -/
theorem isExponent_of_readExponent? {letter : Char} (hletter : letter = 'e' ∨ letter = 'E')
    {cs : List Char} (hread : (readExponent? cs).isSome = true) : IsExponent (letter :: cs) := by
  have hdigits {digits : List Char} (hsome : (readExponent?.readDigits? digits).isSome = true) :
      digits ≠ [] ∧ ∀ c ∈ digits, c.isDigit = true := by
    rw [readExponent?.readDigits?] at hsome
    split at hsome
    · cases hsome
    next hnot => simpa [not_or] using hnot
  have hexponent {sign digits : List Char} (hsign : sign = [] ∨ sign = ['+'] ∨ sign = ['-'])
      (hsome : (readExponent?.readDigits? digits).isSome = true) :
      IsExponent (letter :: (sign ++ digits)) :=
    .scale hletter hsign (hdigits hsome).1 (hdigits hsome).2
  unfold readExponent? at hread
  split at hread
  next digits =>
    rw [Option.isSome_map] at hread
    refine hexponent (.inr (.inr rfl)) ?_
    cases hnumber : readExponent?.readDigits? digits <;> simp_all
  next digits =>
    rw [Option.isSome_map] at hread
    exact hexponent (.inr (.inl rfl)) hread
  next =>
    rw [Option.isSome_map] at hread
    exact hexponent (.inl rfl) hread

/-- A text that is read as a decimal is digits, a fraction and an exponent. -/
theorem exists_of_read? {cs : List Char} {decimal : Decimal} (hread : read? cs = some decimal) :
    ∃ whole fraction exponent, cs = whole ++ (fraction ++ exponent) ∧
      (∀ c ∈ whole, c.isDigit = true) ∧ IsFraction fraction ∧ IsExponent exponent := by
  have hrun (cs : List Char) : ∀ c ∈ cs.takeWhile Char.isDigit, c.isDigit = true :=
    fun c hc => List.mem_takeWhile_imp hc
  have hsplit (cs : List Char) : cs.takeWhile Char.isDigit ++
      cs.drop (cs.takeWhile Char.isDigit).length = cs :=
    List.prefix_iff_eq_append.mp (List.takeWhile_prefix _)
  unfold read? at hread
  extract_lets whole behind digits after scaled at hread
  have hcs : whole ++ behind = cs := hsplit cs
  obtain ⟨fraction, hfraction, hbehind⟩ :
      ∃ fraction, IsFraction fraction ∧ behind = fraction ++ after := by
    clear_value behind
    rcases behind with _ | ⟨c, rest⟩
    · exact ⟨[], .none, rfl⟩
    by_cases hpoint : c = '.'
    · subst hpoint
      exact ⟨'.' :: rest.takeWhile Char.isDigit, .point (hrun rest),
        congrArg (List.cons '.') (hsplit rest).symm⟩
    · refine ⟨[], .none, ?_⟩
      subst after
      split
      next heq => exact absurd (List.cons.inj heq).1 hpoint
      next => rfl
  have hexponent : IsExponent after := by
    clear_value scaled after
    split at hread
    · exact .none
    next letter rest =>
      rw [Option.ite_none_right_eq_some, Option.bind_eq_bind, Option.bind_eq_some_iff] at hread
      obtain ⟨hletter, value, hrest, -⟩ := hread
      exact isExponent_of_readExponent? hletter (Option.isSome_of_eq_some hrest)
  refine ⟨whole, fraction, after, ?_, hrun cs, hfraction, hexponent⟩
  rw [← hbehind, hcs]

end Number.Decimal

namespace Lexeme

open Number.Decimal

/-- The character separates the parts of a decimal. -/
def isMark (c : Char) : Bool :=
  c == '.' || c == 'e' || c == 'E'

theorem isDigit_of_isMark (c : Char) (hc : isMark c = true) : c.isDigit = false := by
  simp only [isMark, Bool.or_eq_true, beq_iff_eq, or_assoc] at hc
  rcases hc with rfl | rfl | rfl <;> rfl

theorem startsIn_fraction {fraction exponent : List Char} (hfraction : IsFraction fraction)
    (hexponent : IsExponent exponent) : StartsIn isMark (fraction ++ exponent) := by
  cases hfraction with
  | point => exact startsIn_cons.mpr rfl
  | none =>
      cases hexponent with
      | none => exact startsIn_nil _
      | scale hletter => rcases hletter with rfl | rfl <;> exact startsIn_cons.mpr rfl

theorem digitsLength_of_digits {digits : List Char} (hdigits : ∀ c ∈ digits, c.isDigit = true)
    {rest : List Char} (hrest : StartsIn isMark rest) :
    digitsLength (digits ++ rest) = digits.length := by
  rw [digitsLength, takeWhile_append_of_startsIn isDigit_of_isMark digits hrest,
    takeWhile_length_eq_iff]
  exact hdigits

/-- A point without digits behind it belongs to no number. -/
theorem fractionLength_of_isFraction {fraction exponent : List Char}
    (hfraction : IsFraction fraction) (hexponent : IsExponent exponent) :
    fractionLength (fraction ++ exponent) = if fraction = ['.'] then 0 else fraction.length := by
  cases hfraction with
  | none =>
      cases hexponent with
      | none => rfl
      | scale hletter => rcases hletter with rfl | rfl <;> rfl
  | @point digits hdigits =>
      have hmark : StartsIn isMark exponent := startsIn_fraction .none hexponent
      rw [List.cons_append, fractionLength, digitsLength_of_digits hdigits hmark]
      rcases digits with _ | ⟨d, digits⟩
      · rfl
      · simp

theorem exponentLength_of_isExponent {exponent : List Char} (hexponent : IsExponent exponent) :
    exponentLength exponent = exponent.length := by
  cases hexponent with
  | none => rfl
  | @scale letter sign digits hletter hsign hne hdigits =>
      obtain ⟨d, more, rfl⟩ := List.exists_cons_of_ne_nil hne
      have hsignLength : signLength (sign ++ d :: more) = sign.length := by
        rcases hsign with rfl | rfl | rfl
        · have hd : d.isDigit = true := hdigits d List.mem_cons_self
          rw [List.nil_append, signLength.eq_3, List.length_nil] <;> rintro rest ⟨⟩ <;> cases hd
        · rfl
        · rfl
      have hlength := digitsLength_of_digits hdigits (startsIn_nil _)
      rw [List.append_nil] at hlength
      rw [exponentLength, if_pos hletter, hsignLength, List.drop_left, hlength]
      simp

theorem unsignedNumber_of_decimal {whole fraction exponent : List Char} (hne : whole ≠ [])
    (hwhole : ∀ c ∈ whole, c.isDigit = true) (hfraction : IsFraction fraction)
    (hexponent : IsExponent exponent) :
    unsignedNumber (whole ++ (fraction ++ exponent)) =
      if fraction = ['.'] then (.number, whole.length)
      else (if fraction = [] ∧ exponent = [] then .number else .float,
        (whole ++ (fraction ++ exponent)).length) := by
  have hmark := startsIn_fraction hfraction hexponent
  have hhex : hexDigits? (whole ++ (fraction ++ exponent)) = none := by
    -- Behind the first digit there is another one or a mark, but no marker of hexadecimal digits.
    have hnone {c x : Char} (rest : List Char) (hx : x.isDigit = true ∨ isMark x = true) :
        hexDigits? (c :: x :: rest) = none := by
      unfold hexDigits?
      split
      · rcases hx with hx | hx <;> simp_all [isMark]
      · simp_all [isMark]
      · rfl
    rcases whole with _ | ⟨c, _ | ⟨d, more⟩⟩
    · exact absurd rfl hne
    · cases hrest : fraction ++ exponent with
      | nil => simp [hexDigits?]
      | cons x rest =>
          rw [hrest] at hmark
          exact hnone rest (.inr (startsIn_cons.mp hmark))
    · exact hnone _ (.inl (hwhole d (by simp)))
  rw [unsignedNumber_of_hexDigits?_eq_none hhex, digitsLength_of_digits hwhole hmark,
    List.drop_left, ← List.drop_drop, List.drop_left,
    fractionLength_of_isFraction hfraction hexponent]
  split
  next hpoint =>
    subst hpoint
    rfl
  next =>
    rw [List.drop_left, exponentLength_of_isExponent hexponent]
    simp [Nat.add_assoc]

/-- A decimal that starts with a digit is one number with a fraction or an exponent unless it
has neither or nothing behind its point. -/
theorem unsignedNumber_eq_float_iff {whole fraction exponent : List Char} (hne : whole ≠ [])
    (hwhole : ∀ c ∈ whole, c.isDigit = true) (hfraction : IsFraction fraction)
    (hexponent : IsExponent exponent) :
    unsignedNumber (whole ++ (fraction ++ exponent)) =
        (.float, (whole ++ (fraction ++ exponent)).length) ↔
      fraction ≠ ['.'] ∧ ¬ (fraction = [] ∧ exponent = []) := by
  rw [unsignedNumber_of_decimal hne hwhole hfraction hexponent]
  by_cases hpoint : fraction = ['.']
  · simp [hpoint]
  · simp [hpoint]

end Lexeme

end HclEditor
