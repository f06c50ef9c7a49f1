import Mathlib
import HclEditor.Literal.Content
import HclEditor.Proofs.Literal.Coercion
import HclEditor.Proofs.Number.Integer
import HclEditor.Proofs.Outcome
import HclEditor.Proofs.Token.Number

/-!
# Integers as they are put out

A number is put out in decimal notation whichever way it is written: with zeros in front, with
a sign, or in hexadecimal digits. Its digits are read without the sign, as an integer of 64
bits. The least of these integers is the opposite of none, so it is put out as it is written,
like the numbers out of the range.
-/

namespace HclEditor

namespace Number

/-- The text is decimal digits, or hexadecimal ones behind their marker, perhaps with a sign
in front of all, and they denote the integer. -/
inductive Numeral (text : List Char) : Int → Prop
  | decimal {digits : List Char} {negative : Bool} {number : Nat}
      (htext : Signed digits negative text) (hdigits : digits ≠ [])
      (hnumber : Denotes 10 digits number) : Numeral text (signed negative number)
  | hexadecimal {x : Char} {digits : List Char} {negative : Bool} {number : Nat}
      (hx : x = 'x' ∨ x = 'X') (htext : Signed ('0' :: x :: digits) negative text)
      (hdigits : digits ≠ []) (hnumber : Denotes 16 digits number) :
      Numeral text (signed negative number)

theorem isHexDigit_iff (c : Char) : Lexeme.isHexDigit c = true ↔ ∃ digit, IsDigit 16 c digit := by
  rw [exists_isDigit_iff le_rfl]
  revert c
  apply forall_of_ascii
  · decide +kernel
  · intro c hc
    have hlower : ¬ c ≤ 'f' := not_le_of_ascii_lt hc (by decide)
    have hupper : ¬ c ≤ 'F' := not_le_of_ascii_lt hc (by decide)
    simp [Lexeme.isHexDigit, isDigit_of_ascii_lt hc, digitValue?_of_ascii_lt hc, hlower, hupper]

/-- A text that is one number, other than a bare marker, is a numeral. -/
theorem exists_numeral_of_spells {text : String}
    (hspells : (TokenKind.literal .number).Spells text)
    (hmarker : text ∉ ["0x", "0X", "-0x", "-0X"]) : ∃ value, Numeral text.toList value := by
  obtain ⟨body, htext, hdigit, hnumber⟩ :=
    (TokenKind.spells_number_iff (.inl rfl)).mp hspells
  obtain ⟨negative, hsigned⟩ : ∃ negative, Signed body negative text.toList := by
    rcases htext with htext | htext <;> rw [htext]
    · exact ⟨false, .bare⟩
    · exact ⟨true, .minus⟩
  rcases Lexeme.unsignedNumber_eq_number_iff.mp hnumber with ⟨digits, hhex, hdigits⟩ | hdigits
  · obtain ⟨number, hvalue⟩ : ∃ number, Denotes 16 digits number :=
      exists_denotes fun c hc => (isHexDigit_iff c).mp (hdigits c hc)
    obtain ⟨x, hx, rfl⟩ : ∃ x, (x = 'x' ∨ x = 'X') ∧ body = '0' :: x :: digits := by
      rcases Lexeme.hexDigits?_eq_some hhex with rfl | rfl
      · exact ⟨'x', .inl rfl, rfl⟩
      · exact ⟨'X', .inr rfl, rfl⟩
    refine ⟨_, .hexadecimal hx hsigned ?_ hvalue⟩
    rintro rfl
    apply hmarker
    rw [← String.ofList_toList (s := text)]
    rcases htext with htext | htext <;> rcases hx with rfl | rfl <;> rw [htext] <;> decide
  · obtain ⟨number, hvalue⟩ : ∃ number, Denotes 10 body number :=
      exists_denotes fun c hc => (isDigit_iff c).mp (hdigits c hc)
    refine ⟨_, .decimal hsigned ?_ hvalue⟩
    rintro rfl
    cases hdigit

/-- A text that is accepted as an integer is a numeral. -/
theorem exists_numeral_of_coerce {text : String} {literal : Literal}
    (hcoerce : Literal.coerce .int text = .ok literal) : ∃ value, Numeral text.toList value := by
  obtain ⟨⟨value, hread⟩, -⟩ := Literal.coerce_int_eq_ok_iff.mp hcoerce
  obtain ⟨negative, digits, number, hsigned, hdigits, hnumber, -⟩ :=
    (readInteger_eq_ok_iff (by norm_num) (by norm_num)).mp hread
  exact ⟨_, .decimal hsigned hdigits hnumber⟩

end Number

namespace Literal

open Number

theorem readUnsigned_hexadecimal {x : Char} (hx : x = 'x' ∨ x = 'X') (digits : List Char) :
    readNumber.readUnsigned ('0' :: x :: digits) = readInteger 16 digits := by
  rcases hx with rfl | rfl <;> rfl

/-- Decimal digits hold no marker. -/
theorem readUnsigned_decimal {digits : List Char} {number : Nat}
    (hnumber : Denotes 10 digits number) :
    readNumber.readUnsigned digits = readInteger 10 digits := by
  have hmarker {x : Char} (hx : digitValue? 10 x = none) (rest : List Char) :
      digits ≠ '0' :: x :: rest := by
    rintro rfl
    obtain ⟨digit, hdigit⟩ := hnumber.isDigit (c := x) (by simp)
    exact hdigit.ne (by norm_num) hx rfl
  rw [readNumber.readUnsigned.eq_3]
  · exact fun rest => hmarker (by decide) rest
  · exact fun rest => hmarker (by decide) rest

/-- If the digits are read as a number below `2 ^ 63` or not at all, so is the number behind
its sign. -/
theorem readNumber_of_readUnsigned {body text : List Char} {negative : Bool} {number : Nat}
    (htext : Signed body negative text) (hsign : ∀ c ∈ body.head?, c ≠ '-' ∧ c ≠ '+')
    (hbody : ∀ value, readNumber.readUnsigned body = .ok value ↔
      value = number ∧ number < 2 ^ 63) {value : Int} :
    readNumber text = .ok value ↔ value = signed negative number ∧ number < 2 ^ 63 := by
  cases htext with
  | bare =>
      rw [readNumber.eq_3, hbody]
      · exact Iff.rfl
      · rintro digits rfl
        exact (hsign '-' rfl).1 rfl
      · rintro digits rfl
        exact (hsign '+' rfl).2 rfl
  | plus => exact hbody value
  | minus =>
      -- The number is not negative, so it is not the least integer and has an opposite.
      have hnegate : negate number = signed true number := by
        have hleast : leastInteger = -9223372036854775808 := rfl
        rw [negate, if_neg (by omega)]
        rfl
      rw [readNumber, Except.map_eq_ok]
      constructor
      · rintro ⟨_, hread, rfl⟩
        obtain ⟨rfl, hless⟩ := (hbody _).mp hread
        exact ⟨hnegate, hless⟩
      · rintro ⟨rfl, hless⟩
        exact ⟨number, (hbody _).mpr ⟨rfl, hless⟩, hnegate⟩

/-- The integer that a numeral denotes is read if its magnitude is below `2 ^ 63`. -/
theorem readNumber_eq_ok_iff {text : List Char} {integer value : Int}
    (hnumeral : Numeral text integer) :
    readNumber text = .ok value ↔ value = integer ∧ -2 ^ 63 < integer ∧ integer < 2 ^ 63 := by
  have hrange (negative : Bool) (number : Nat) : number < 2 ^ 63 ↔
      -2 ^ 63 < signed negative number ∧ signed negative number < 2 ^ 63 := by
    cases negative <;> simp [signed] <;> omega
  cases hnumeral with
  | @decimal digits negative number htext hdigits hnumber =>
      rw [← hrange]
      apply readNumber_of_readUnsigned htext
      · intro c hc
        obtain ⟨rest, rfl⟩ := List.head?_eq_some_iff.mp hc
        exact hnumber.head?_ne (by norm_num)
      · intro value
        rw [readUnsigned_decimal hnumber]
        exact readInteger_digits_eq_ok_iff (by norm_num) (by norm_num) hdigits hnumber
  | @hexadecimal x digits negative number hx htext hdigits hnumber =>
      rw [← hrange]
      apply readNumber_of_readUnsigned htext
      · simp
      · intro value
        rw [readUnsigned_hexadecimal hx]
        exact readInteger_digits_eq_ok_iff (by norm_num) le_rfl hdigits hnumber

/-- A number is put out in decimal notation, or else as it is written. -/
theorem content_of_numeral {text : String} {integer : Int}
    (hnumeral : Numeral text.toList integer) :
    content ⟨.number, text⟩ =
      if -2 ^ 63 < integer ∧ integer < 2 ^ 63 then toString integer else text := by
  have hread (value : Int) : readNumber text.toList = .ok value ↔
      value = integer ∧ -2 ^ 63 < integer ∧ integer < 2 ^ 63 := readNumber_eq_ok_iff hnumeral
  rw [content]
  dsimp only
  split
  next value hvalue =>
    obtain ⟨rfl, hrange⟩ := (hread value).mp hvalue
    rw [if_pos hrange]
  next fault hfault =>
    split
    next hrange =>
      rw [(hread integer).mpr ⟨rfl, hrange⟩] at hfault
      cases hfault
    next => rfl

/-- Every whole number in a document that has a digit, and every text that is accepted as an
integer, denotes an integer. It is put out in decimal notation if the magnitude of the integer
is below `2 ^ 63`, and as it is written otherwise. So every integer of 64 bits is put out in
decimal notation, and every other one as it is written, except for the least of 64 bits where
that is written in another way. -/
theorem content_of_integer {text : String}
    (htext : ((TokenKind.literal .number).Spells text ∧ text ∉ ["0x", "0X", "-0x", "-0X"]) ∨
      ∃ literal, coerce .int text = .ok literal) :
    (∃ integer, Numeral text.toList integer) ∧
      ∀ integer, Numeral text.toList integer →
        content ⟨.number, text⟩ =
          (if -2 ^ 63 < integer ∧ integer < 2 ^ 63 then toString integer else text) ∧
        (content ⟨.number, text⟩ =
            (if -2 ^ 63 ≤ integer ∧ integer ≤ 2 ^ 63 - 1 then toString integer else text) ↔
          (integer = -2 ^ 63 → text = toString integer)) := by
  refine ⟨?_, fun integer hnumeral => ?_⟩
  · rcases htext with ⟨hspells, hmarker⟩ | ⟨literal, hcoerce⟩
    · exact exists_numeral_of_spells hspells hmarker
    · exact exists_numeral_of_coerce hcoerce
  · have hcontent := content_of_numeral hnumeral
    refine ⟨hcontent, ?_⟩
    rw [hcontent]
    by_cases hleast : integer = -2 ^ 63
    · subst hleast
      simp
    · refine iff_of_true ?_ fun heq => absurd heq hleast
      refine if_congr ?_ rfl rfl
      omega

/-- The number next to the least integer, in hexadecimal digits. -/
theorem content_of_integer_hexadecimal :
    (TokenKind.literal .number).Spells "-0x7fffFFFFffffffff" ∧
      content ⟨.number, "-0x7fffFFFFffffffff"⟩ = "-9223372036854775807" := by
  have hspells : (TokenKind.literal .number).Spells "-0x7fffFFFFffffffff" := by decide +kernel
  have hnumber : Denotes 16 "7fffFFFFffffffff".toList 9223372036854775807 :=
    ⟨[7, 15, 15, 15, 15, 15, 15, 15, 15, 15, 15, 15, 15, 15, 15, 15], by decide, by decide⟩
  have hnumeral : Numeral "-0x7fffFFFFffffffff".toList (-9223372036854775807) :=
    .hexadecimal (.inl rfl) .minus (by decide) hnumber
  obtain ⟨-, hcontent⟩ := content_of_integer (.inl ⟨hspells, by decide⟩)
  exact ⟨hspells, (hcontent _ hnumeral).1⟩

/-- The least integer is not put out in decimal notation when it is written in hexadecimal
digits. -/
theorem not_forall_content_eq_toString : ¬ ∀ (text : String) (integer : Int),
    (TokenKind.literal .number).Spells text → Numeral text.toList integer →
      -2 ^ 63 ≤ integer → integer ≤ 2 ^ 63 - 1 → content ⟨.number, text⟩ = toString integer := by
  intro hall
  have hspells : (TokenKind.literal .number).Spells "-0x8000000000000000" := by decide +kernel
  have hnumber : Denotes 16 "8000000000000000".toList 9223372036854775808 :=
    ⟨[8, 0, 0, 0, 0, 0, 0, 0, 0, 0, 0, 0, 0, 0, 0, 0], by decide, by decide⟩
  have hnumeral : Numeral "-0x8000000000000000".toList (-9223372036854775808) :=
    .hexadecimal (.inl rfl) .minus (by decide) hnumber
  have hcontent := hall _ _ hspells hnumeral (by norm_num) (by norm_num)
  exact absurd hcontent (by decide +kernel)

end Literal

end HclEditor
