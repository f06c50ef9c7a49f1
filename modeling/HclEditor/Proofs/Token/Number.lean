import Mathlib
import HclEditor.Proofs.Token.Reading

/-!
# Texts that are one number

A number that stands alone starts with a digit, perhaps behind a minus sign, and all of its
text belongs to it: digits with a fraction or an exponent, or hexadecimal digits behind their
marker.
-/

namespace HclEditor

namespace Lexeme

theorem isGap_of_isDigit {c : Char} (hdigit : c.isDigit = true) : isGap c = false := by
  rw [Bool.eq_false_iff]
  intro hgap
  simp only [isGap, Bool.or_eq_true, beq_iff_eq, or_assoc] at hgap
  rcases hgap with rfl | rfl | rfl | rfl <;> cases hdigit

/-- All of a text is digits if its digits are as long as it is. -/
theorem takeWhile_length_eq_iff {p : Char → Bool} {cs : List Char} :
    (cs.takeWhile p).length = cs.length ↔ ∀ c ∈ cs, p c = true := by
  rw [← List.takeWhile_eq_self_iff]
  constructor
  · exact (List.takeWhile_prefix p).eq_of_length
  · intro hself
    rw [hself]

/-- A whole number is decimal digits, or hexadecimal ones behind their marker. -/
theorem unsignedNumber_eq_number_iff {cs : List Char} :
    unsignedNumber cs = (.number, cs.length) ↔
      (∃ digits, hexDigits? cs = some digits ∧ ∀ c ∈ digits, isHexDigit c = true) ∨
        ∀ c ∈ cs, c.isDigit = true := by
  cases hhex : hexDigits? cs with
  | some digits =>
      have hlength : cs.length = digits.length + 2 := by
        rcases hexDigits?_eq_some hhex with rfl | rfl <;> rfl
      have hmarker : ¬ ∀ c ∈ cs, c.isDigit = true := by
        rcases hexDigits?_eq_some hhex with rfl | rfl <;> simp
      rw [unsignedNumber_of_hexDigits? hhex, hlength, Prod.mk.injEq, Nat.add_right_cancel_iff,
        takeWhile_length_eq_iff]
      simp [hmarker]
  | none =>
      rw [unsignedNumber_of_hexDigits?_eq_none hhex, ← takeWhile_length_eq_iff, ← digitsLength,
        Prod.mk.injEq]
      constructor
      · rintro ⟨hkind, hlength⟩
        split at hkind
        next hnothing => exact .inr (by omega)
        next => cases hkind
      · rintro (⟨digits, hdigits, -⟩ | hlength)
        · cases hdigits
        · simp [hlength, fractionLength, exponentLength]

end Lexeme

namespace TokenKind

/-- The numbers that stand alone. -/
theorem spells_number_iff {kind : LiteralKind} (hkind : kind = .number ∨ kind = .float)
    {text : String} :
    (literal kind).Spells text ↔
      ∃ body, (text.toList = body ∨ text.toList = '-' :: body) ∧
        body.head?.any Char.isDigit = true ∧
          Lexeme.unsignedNumber body = (kind, body.length) := by
  rw [spells_iff_reads]
  constructor
  · rintro ⟨c, cs, htext, -, hread⟩
    rw [List.append_nil] at hread
    generalize htoken : literal kind = token at hread
    generalize hlength : cs.length = n at hread
    cases Lexeme.readsAs_of_read hread with
    | digit hdigit =>
        have hpos := Lexeme.unsignedNumber_pos hdigit cs
        refine ⟨c :: cs, .inl htext, by simpa using hdigit, ?_⟩
        rw [literal.injEq] at htoken
        rw [htoken, List.length_cons]
        exact Prod.ext rfl (by dsimp only; omega)
    | minus hc hdigit =>
        subst hc
        rw [literal.injEq] at htoken
        exact ⟨cs, .inr htext, hdigit, Prod.ext htoken.symm hlength.symm⟩
    | symbol hsymbol =>
        rw [← htoken] at hsymbol
        cases hsymbol
    | letter =>
        unfold Lexeme.wordKind at htoken
        split at htoken <;> rcases hkind with rfl | rfl <;> cases htoken
    | lineComment | blockComment | string | heredoc => rcases hkind with rfl | rfl <;> cases htoken
  · rintro ⟨body, htext, hdigit, hnumber⟩
    rw [Option.any_eq_true] at hdigit
    obtain ⟨d, hhead, hd⟩ := hdigit
    obtain ⟨more, rfl⟩ := List.head?_eq_some_iff.mp hhead
    rcases htext with htext | htext
    · refine ⟨d, more, htext, Lexeme.isGap_of_isDigit hd, ?_⟩
      rw [List.append_nil, Lexeme.read_of_digit hd, hnumber, List.length_cons,
        Nat.add_sub_cancel]
    · refine ⟨'-', d :: more, htext, rfl, ?_⟩
      rw [List.append_nil, Lexeme.read_minus (d :: more) hd, hnumber]

end TokenKind

end HclEditor
