import Mathlib
import HclEditor.Literal.ValueType
import HclEditor.Proofs.Number.Decimal
import HclEditor.Proofs.Number.Integer

/-!
# Numbers that are set

Numbers keep their text when they are set. Not every text that stands for a number is one
number of a document: a plus sign in front, a point without digits on both of its sides and the
names of infinity are not read there, and a float without point and exponent is read as a whole
number.
-/

namespace HclEditor

open Lexeme Number.Decimal

/-- Every point is followed by a digit. -/
def PointsLead : List Char → Prop
  | [] => True
  | c :: cs => (c = '.' → cs.head?.any Char.isDigit = true) ∧ PointsLead cs

namespace Literal

/-- What keeps the text of a number one number in a document: it starts with a digit, perhaps
behind a minus sign, its points are followed by digits, and if it is a float then it has a point
or an exponent. -/
structure ReadsBack (type : ValueType) (text : List Char) : Prop where
  digitFirst : ∃ body, (text = body ∨ text = '-' :: body) ∧ body.head?.any Char.isDigit = true
  pointsLead : PointsLead text
  marked : type = .float → ∃ c ∈ text, isMark c = true

end Literal

theorem pointsLead_append {before : List Char} (hbefore : '.' ∉ before) (rest : List Char) :
    PointsLead (before ++ rest) ↔ PointsLead rest := by
  induction before with
  | nil => rfl
  | cons c before ih =>
      rw [List.mem_cons, not_or] at hbefore
      rw [List.cons_append, PointsLead, ih hbefore.2]
      exact and_iff_right fun hc => absurd hc.symm hbefore.1

theorem not_mem_of_isDigit {c : Char} (hc : c.isDigit = false) {digits : List Char}
    (hdigits : ∀ c ∈ digits, c.isDigit = true) : c ∉ digits := by
  intro hmem
  rw [hdigits c hmem] at hc
  cases hc

section Decimal

variable {whole fraction exponent : List Char}

theorem point_not_mem_exponent (hexponent : IsExponent exponent) : '.' ∉ exponent := by
  cases hexponent with
  | none => simp
  | @scale letter sign digits hletter hsign hne hdigits =>
      have hpoint : '.' ∉ digits := not_mem_of_isDigit rfl hdigits
      rcases hletter with rfl | rfl <;> rcases hsign with rfl | rfl | rfl <;> simp [hpoint]

variable (hwhole : ∀ c ∈ whole, c.isDigit = true) (hfraction : IsFraction fraction)
  (hexponent : IsExponent exponent)
include hwhole hfraction hexponent

theorem pointsLead_decimal :
    PointsLead (whole ++ (fraction ++ exponent)) ↔ fraction ≠ ['.'] := by
  have hlead : PointsLead exponent := by
    rw [← List.append_nil exponent, pointsLead_append (point_not_mem_exponent hexponent)]
    trivial
  rw [pointsLead_append (not_mem_of_isDigit rfl hwhole)]
  cases hfraction with
  | none => simpa using hlead
  | @point digits hdigits =>
      have hrest : PointsLead (digits ++ exponent) :=
        (pointsLead_append (not_mem_of_isDigit rfl hdigits) exponent).mpr hlead
      rw [List.cons_append, PointsLead, and_iff_left hrest]
      rcases digits with _ | ⟨d, digits⟩
      · have hmark : StartsIn isMark exponent := startsIn_fraction .none hexponent
        rcases exponent with _ | ⟨c, exponent⟩
        · simp
        · simp [isDigit_of_isMark c (startsIn_cons.mp hmark)]
      · simp [hdigits d List.mem_cons_self]

theorem exists_isMark_decimal :
    (∃ c ∈ whole ++ (fraction ++ exponent), isMark c = true) ↔
      ¬ (fraction = [] ∧ exponent = []) := by
  constructor
  · rintro ⟨c, hc, hmark⟩ ⟨rfl, rfl⟩
    rw [List.append_nil, List.append_nil] at hc
    exact not_mem_of_isDigit (isDigit_of_isMark c hmark) hwhole hc
  · intro hne
    have hmark := startsIn_fraction hfraction hexponent
    rcases hrest : fraction ++ exponent with _ | ⟨c, rest⟩
    · exact absurd (List.append_eq_nil_iff.mp hrest) hne
    · rw [hrest] at hmark
      exact ⟨c, by simp, startsIn_cons.mp hmark⟩

end Decimal

namespace Literal

variable {type : ValueType} {raw : String} {literal : Literal}

theorem coerce_int_eq_ok_iff : coerce .int raw = .ok literal ↔
    (∃ value, Number.readInteger 10 raw.toList = .ok value) ∧ literal = ⟨.number, raw⟩ := by
  rw [coerce]
  split
  next value hread => simp [hread, eq_comm]
  next fault hread => simp [hread]

theorem coerce_float_eq_ok_iff : coerce .float raw = .ok literal ↔
    (∃ value, readSigned raw.toList = .ok value) ∧ literal = ⟨.float, raw⟩ := by
  rw [coerce]
  split
  next value hread => simp [hread, eq_comm]
  next fault hread => simp [hread]

/-- Numbers are set as they are given. -/
theorem coerce_number (htype : type = .int ∨ type = .float)
    (hcoerce : coerce type raw = .ok literal) : literal = ⟨type.literalKind, raw⟩ := by
  rcases htype with rfl | rfl
  · exact (coerce_int_eq_ok_iff.mp hcoerce).2
  · exact (coerce_float_eq_ok_iff.mp hcoerce).2

/-- An integer that is given with a digit first is only digits. -/
theorem isDigit_of_coerce_int (hcoerce : coerce .int raw = .ok literal) {body : List Char}
    (htext : raw.toList = body ∨ raw.toList = '-' :: body)
    (hdigit : body.head?.any Char.isDigit = true) : ∀ c ∈ body, c.isDigit = true := by
  obtain ⟨⟨value, hread⟩, -⟩ := coerce_int_eq_ok_iff.mp hcoerce
  obtain ⟨negative, digits, number, hsigned, -, hnumber, -⟩ :=
    (Number.readInteger_eq_ok_iff (by norm_num) (by norm_num)).mp hread
  have hdigits : ∀ c ∈ digits, c.isDigit = true :=
    fun c hc => (Number.isDigit_iff c).mpr (hnumber.isDigit hc)
  generalize raw.toList = text at hsigned htext
  cases hsigned with
  | bare =>
      rcases htext with rfl | rfl
      · exact hdigits
      · exact absurd List.mem_cons_self (not_mem_of_isDigit rfl hdigits)
  | plus => rcases htext with rfl | htext <;> [cases hdigit; cases htext]
  | minus =>
      rcases htext with rfl | htext
      · cases hdigit
      · exact (List.cons.inj htext).2 ▸ hdigits

theorem isDigit_toLower (c : Char) : c.isDigit = true → c.toLower.isDigit = true := by
  revert c
  apply Number.forall_of_ascii
  · decide +kernel
  · intro c hc hdigit
    rw [Number.isDigit_of_ascii_lt hc] at hdigit
    cases hdigit

/-- No name of a number starts with a digit. -/
theorem exists_read?_of_readMagnitude? {body : List Char}
    (hread : (readMagnitude? body).isSome = true) (hdigit : body.head?.any Char.isDigit = true) :
    ∃ decimal, read? body = some decimal := by
  rw [readMagnitude?] at hread
  split at hread
  next decimal hdecimal => exact ⟨decimal, hdecimal⟩
  next =>
    rcases body with _ | ⟨d, more⟩
    · cases hdigit
    have hlower : d.toLower.isDigit = true := isDigit_toLower d hdigit
    have hword {word : String} (hhead : word.toList.head?.any Char.isDigit = false) :
        String.ofList ((d :: more).map Char.toLower) ≠ word := by
      rintro rfl
      rw [String.toList_ofList, List.map_cons, List.head?_cons, Option.any_some, hlower] at hhead
      cases hhead
    rw [named?, if_neg (not_or.mpr ⟨hword rfl, hword rfl⟩), if_neg (hword rfl)] at hread
    cases hread

/-- A float that is given with a digit first is a decimal. -/
theorem exists_read?_of_coerce_float (hcoerce : coerce .float raw = .ok literal)
    {body : List Char} (htext : raw.toList = body ∨ raw.toList = '-' :: body)
    (hdigit : body.head?.any Char.isDigit = true) : ∃ decimal, read? body = some decimal := by
  obtain ⟨⟨signed, hread⟩, -⟩ := coerce_float_eq_ok_iff.mp hcoerce
  have hmagnitude {negative : Bool}
      (hsome : readSigned.orMalformed ((readMagnitude? body).map (negative, ·)) = .ok signed) :
      (readMagnitude? body).isSome = true := by
    cases hbody : readMagnitude? body with
    | some magnitude => rfl
    | none =>
        rw [hbody] at hsome
        cases hsome
  refine exists_read?_of_readMagnitude? ?_ hdigit
  rcases htext with htext | htext <;> rw [htext] at hread
  · rcases body with _ | ⟨d, more⟩
    · cases hdigit
    have hd : d.isDigit = true := hdigit
    rw [readSigned.eq_4] at hread
    · exact hmagnitude hread
    · simp
    · rintro cs ⟨⟩
      cases hd
    · rintro cs ⟨⟩
      cases hd
  · exact hmagnitude hread

/-- Where a number that is given has a digit first, it is a single number of a document exactly
if it can be read back. -/
theorem unsignedNumber_eq_iff (htype : type = .int ∨ type = .float)
    (hcoerce : coerce type raw = .ok literal) {body : List Char}
    (htext : raw.toList = body ∨ raw.toList = '-' :: body)
    (hdigit : body.head?.any Char.isDigit = true) :
    unsignedNumber body = (type.literalKind, body.length) ↔ ReadsBack type raw.toList := by
  have hbody : PointsLead raw.toList ↔ PointsLead body := by
    rcases htext with htext | htext <;> rw [htext]
    exact pointsLead_append (by simp : '.' ∉ ['-']) body
  have hmarked : (∃ c ∈ raw.toList, isMark c = true) ↔ ∃ c ∈ body, isMark c = true := by
    rcases htext with htext | htext <;> rw [htext]
    simp [isMark]
  have hreadsBack : ReadsBack type raw.toList ↔
      PointsLead body ∧ (type = .float → ∃ c ∈ body, isMark c = true) := by
    rw [← hbody, ← hmarked]
    exact ⟨fun hback => ⟨hback.pointsLead, hback.marked⟩,
      fun hback => ⟨⟨body, htext, hdigit⟩, hback.1, hback.2⟩⟩
  rw [hreadsBack]
  rcases htype with rfl | rfl
  · have hdigits := isDigit_of_coerce_int hcoerce htext hdigit
    refine iff_of_true (unsignedNumber_eq_number_iff.mpr (.inr hdigits)) ⟨?_, ?_⟩
    · rw [← List.append_nil body, pointsLead_append (not_mem_of_isDigit rfl hdigits)]
      trivial
    · intro hfloat
      cases hfloat
  · obtain ⟨decimal, hread⟩ := exists_read?_of_coerce_float hcoerce htext hdigit
    obtain ⟨whole, fraction, exponent, rfl, hwhole, hfraction, hexponent⟩ := exists_of_read? hread
    have hne : whole ≠ [] := by
      rintro rfl
      have hmark := startsIn_fraction hfraction hexponent
      rw [List.nil_append, Option.any_eq_true] at hdigit
      obtain ⟨d, hd, hdigit⟩ := hdigit
      rw [isDigit_of_isMark d (hmark d hd)] at hdigit
      cases hdigit
    rw [pointsLead_decimal hwhole hfraction hexponent,
      exists_isMark_decimal hwhole hfraction hexponent, imp_iff_right rfl]
    exact unsignedNumber_eq_float_iff hne hwhole hfraction hexponent

/-- A number is set as a single token of its kind exactly if it can be read back. -/
theorem spells_iff_readsBack (htype : type = .int ∨ type = .float)
    (hcoerce : coerce type raw = .ok literal) :
    (TokenKind.literal literal.kind).Spells literal.text ↔ ReadsBack type raw.toList := by
  have hkind : type.literalKind = .number ∨ type.literalKind = .float := by
    rcases htype with rfl | rfl
    · exact .inl rfl
    · exact .inr rfl
  rw [coerce_number htype hcoerce, TokenKind.spells_number_iff hkind]
  constructor
  · rintro ⟨body, htext, hdigit, hnumber⟩
    exact (unsignedNumber_eq_iff htype hcoerce htext hdigit).mp hnumber
  · intro hback
    obtain ⟨body, htext, hdigit⟩ := hback.digitFirst
    exact ⟨body, htext, hdigit, (unsignedNumber_eq_iff htype hcoerce htext hdigit).mpr hback⟩

end Literal

end HclEditor
