import Mathlib
import HclEditor.Number.Integer

/-!
# What digits denote

Digits denote a number by their places. They are read from the left, and the reader stops as
soon as the number leaves the range of 64 bits; it can do so because no further digit leads
back into the range. So a text is read exactly if it is digits, perhaps behind a sign, for a
number in the range.
-/

namespace HclEditor.Number

/-- The character is a digit of the radix, a letter in either case. -/
def IsDigit (radix : Nat) (c : Char) (digit : Nat) : Prop :=
  digit < radix ∧ c.toLower = digit.digitChar

instance (radix : Nat) (c : Char) (digit : Nat) : Decidable (IsDigit radix c digit) :=
  inferInstanceAs (Decidable (_ ∧ _))

/-- The digits, the first of them in the highest place, denote the number. -/
def Denotes (radix : Nat) (cs : List Char) (number : Nat) : Prop :=
  ∃ digits, List.Forall₂ (IsDigit radix) cs digits ∧ number = Nat.ofDigits radix digits.reverse

/-- The text is the digits, perhaps behind a sign, which is a minus sign if `negative`. -/
inductive Signed (digits : List Char) : Bool → List Char → Prop
  | bare : Signed digits false digits
  | plus : Signed digits false ('+' :: digits)
  | minus : Signed digits true ('-' :: digits)

/-- The number with a minus sign if `negative`. -/
def signed (negative : Bool) (number : Nat) : Int :=
  if negative then -number else number

/-- The integer has 64 bits. -/
def InRange (value : Int) : Prop :=
  leastInteger ≤ value ∧ value ≤ greatestInteger

section Digit

variable {radix : Nat} {c : Char} {digit : Nat}

/-- A digit of a smaller radix has the same value in a greater one. -/
theorem digitValue?_eq_some_of_le (hradix : radix ≤ 16) :
    digitValue? radix c = some digit ↔ digit < radix ∧ digitValue? 16 c = some digit := by
  simp only [digitValue?, Option.ite_none_right_eq_some, Option.some.injEq]
  split_ifs <;> omega

theorem not_le_of_ascii_lt {d : Char} (hc : 128 ≤ c.toNat) (hd : d.toNat < 128) : ¬ c ≤ d := by
  intro hle
  have hcode : c.toNat ≤ d.toNat := hle
  omega

theorem toLower_of_ascii_lt (hc : 128 ≤ c.toNat) : c.toLower = c := by
  rw [Char.toLower, dif_neg]
  exact fun hupper => not_le_of_ascii_lt (d := 'Z') hc (by decide) hupper.2

theorem isDigit_of_ascii_lt (hc : 128 ≤ c.toNat) : c.isDigit = false := by
  rw [Bool.eq_false_iff]
  intro hdigit
  rw [Char.isDigit, Bool.and_eq_true, decide_eq_true_eq, decide_eq_true_eq] at hdigit
  exact not_le_of_ascii_lt (d := '9') hc (by decide) hdigit.2

theorem digitValue?_of_ascii_lt (hc : 128 ≤ c.toNat) : digitValue? 16 c = none := by
  have hlower : ¬ ('a' ≤ c ∧ c ≤ 'z') := fun hle => not_le_of_ascii_lt hc (by decide) hle.2
  have hupper : ¬ ('A' ≤ c ∧ c ≤ 'Z') := fun hle => not_le_of_ascii_lt hc (by decide) hle.2
  simp [digitValue?, isDigit_of_ascii_lt hc, hlower, hupper]

/-- What holds of the ASCII characters one by one, and of all characters beyond them, holds
of every character. -/
theorem forall_of_ascii {P : Char → Prop} (hascii : ∀ code < 128, P (Char.ofNat code))
    (hbeyond : ∀ c : Char, 128 ≤ c.toNat → P c) (c : Char) : P c := by
  by_cases hc : c.toNat < 128
  · rw [← Char.ofNat_toNat c]
    exact hascii c.toNat hc
  · exact hbeyond c (not_lt.mp hc)

/-- The characters with a value are the digits. -/
theorem digitValue?_eq_some_iff (hradix : radix ≤ 16) :
    digitValue? radix c = some digit ↔ IsDigit radix c digit := by
  have hdigits : ∀ digit < 16, digit.digitChar.toNat < 128 := by decide
  have hall : ∀ c : Char, ∀ digit < 16,
      digitValue? 16 c = some digit ↔ c.toLower = digit.digitChar := by
    apply forall_of_ascii
    · decide +kernel
    · intro c hc digit hdigit
      rw [digitValue?_of_ascii_lt hc, toLower_of_ascii_lt hc]
      refine iff_of_false (by simp) ?_
      rintro rfl
      exact absurd hc (not_le.mpr (hdigits digit hdigit))
  rw [digitValue?_eq_some_of_le hradix, IsDigit]
  exact and_congr_right fun hdigit => hall c digit (hdigit.trans_le hradix)

theorem exists_isDigit_iff (hradix : radix ≤ 16) :
    (∃ digit, IsDigit radix c digit) ↔ (digitValue? radix c).isSome = true := by
  rw [Option.isSome_iff_exists]
  exact exists_congr fun digit => (digitValue?_eq_some_iff hradix).symm

/-- The decimal digits. -/
theorem isDigit_iff (c : Char) : c.isDigit = true ↔ ∃ digit, IsDigit 10 c digit := by
  rw [exists_isDigit_iff (by norm_num)]
  revert c
  apply forall_of_ascii
  · decide +kernel
  · intro c hc
    have hnone : digitValue? 10 c = none := by
      rw [Option.eq_none_iff_forall_ne_some]
      intro digit hdigit
      rw [digitValue?_eq_some_of_le (by norm_num), digitValue?_of_ascii_lt hc] at hdigit
      cases hdigit.2
    simp [isDigit_of_ascii_lt hc, hnone]

theorem IsDigit.unique (hradix : radix ≤ 16) (hdigit : IsDigit radix c digit) {other : Nat}
    (hother : IsDigit radix c other) : digit = other := by
  rw [← digitValue?_eq_some_iff hradix] at hdigit hother
  exact Option.some.inj (hdigit.symm.trans hother)

/-- No digit is a sign or a marker. -/
theorem IsDigit.ne (hradix : radix ≤ 16) (hdigit : IsDigit radix c digit) {other : Char}
    (hother : digitValue? radix other = none) : c ≠ other := by
  rintro rfl
  rw [← digitValue?_eq_some_iff hradix, hother] at hdigit
  cases hdigit

end Digit

section Denotes

variable {radix before total : Nat} {c : Char} {cs : List Char} {number : Nat}

theorem denotes_nil : Denotes radix [] number ↔ number = 0 := by
  simp [Denotes]

/-- A digit counts as often as there are places behind it. -/
theorem denotes_cons : Denotes radix (c :: cs) number ↔
    ∃ digit rest, IsDigit radix c digit ∧ Denotes radix cs rest ∧
      number = digit * radix ^ cs.length + rest := by
  constructor
  · rintro ⟨digits, hdigits, rfl⟩
    obtain ⟨digit, rest, hdigit, hrest, rfl⟩ := List.forall₂_cons_left_iff.mp hdigits
    refine ⟨digit, _, hdigit, ⟨rest, hrest, rfl⟩, ?_⟩
    rw [List.reverse_cons, Nat.ofDigits_append, Nat.ofDigits_singleton, List.length_reverse,
      hrest.length_eq]
    ring
  · rintro ⟨digit, _, hdigit, ⟨rest, hrest, rfl⟩, rfl⟩
    refine ⟨digit :: rest, .cons hdigit hrest, ?_⟩
    rw [List.reverse_cons, Nat.ofDigits_append, Nat.ofDigits_singleton, List.length_reverse,
      hrest.length_eq]
    ring

theorem Denotes.isDigit (hdenotes : Denotes radix cs number) (hc : c ∈ cs) :
    ∃ digit, IsDigit radix c digit := by
  obtain ⟨digits, hdigits, -⟩ := hdenotes
  induction hdigits with
  | nil => cases hc
  | cons hdigit _ ih =>
      rcases List.mem_cons.mp hc with rfl | hc
      · exact ⟨_, hdigit⟩
      · exact ih hc

theorem Denotes.unique (hradix : radix ≤ 16) (hdenotes : Denotes radix cs number) {other : Nat}
    (hother : Denotes radix cs other) : number = other := by
  induction cs generalizing number other with
  | nil => rw [denotes_nil.mp hdenotes, denotes_nil.mp hother]
  | cons c cs ih =>
      obtain ⟨digit, rest, hdigit, hrest, rfl⟩ := denotes_cons.mp hdenotes
      obtain ⟨digit', rest', hdigit', hrest', rfl⟩ := denotes_cons.mp hother
      rw [hdigit.unique hradix hdigit', ih hrest hrest']

theorem exists_denotes (hdigits : ∀ c ∈ cs, ∃ digit, IsDigit radix c digit) :
    ∃ number, Denotes radix cs number := by
  induction cs with
  | nil => exact ⟨0, denotes_nil.mpr rfl⟩
  | cons c cs ih =>
      rw [List.forall_mem_cons] at hdigits
      obtain ⟨digit, hdigit⟩ := hdigits.1
      obtain ⟨rest, hrest⟩ := ih hdigits.2
      exact ⟨_, denotes_cons.mpr ⟨digit, rest, hdigit, hrest, rfl⟩⟩

/-- The digits, behind others that denote `before`, denote the total. -/
def DenotesBehind (radix before : Nat) (cs : List Char) (total : Nat) : Prop :=
  ∃ number, Denotes radix cs number ∧ total = before * radix ^ cs.length + number

theorem denotesBehind_zero : DenotesBehind radix 0 cs total ↔ Denotes radix cs total := by
  simp [DenotesBehind]

theorem denotesBehind_nil : DenotesBehind radix before [] total ↔ total = before := by
  simp [DenotesBehind, denotes_nil]

theorem denotesBehind_cons : DenotesBehind radix before (c :: cs) total ↔
    ∃ digit, IsDigit radix c digit ∧ DenotesBehind radix (before * radix + digit) cs total := by
  simp only [DenotesBehind, denotes_cons, List.length_cons, pow_succ]
  constructor
  · rintro ⟨_, ⟨digit, rest, hdigit, hrest, rfl⟩, rfl⟩
    exact ⟨digit, hdigit, rest, hrest, by ring⟩
  · rintro ⟨digit, hdigit, rest, hrest, rfl⟩
    exact ⟨_, ⟨digit, rest, hdigit, hrest, rfl⟩, by ring⟩

theorem DenotesBehind.le (hpos : 0 < radix) (hdenotes : DenotesBehind radix before cs total) :
    before ≤ total := by
  obtain ⟨number, -, rfl⟩ := hdenotes
  exact le_add_right (Nat.le_mul_of_pos_right before (Nat.pow_pos hpos))

end Denotes

section Range

variable {negative : Bool} {number : Nat}

theorem inRange_signed :
    InRange (signed negative number) ↔ number < 2 ^ 63 ∨ negative = true ∧ number = 2 ^ 63 := by
  have hleast : leastInteger = -9223372036854775808 := rfl
  have hgreatest : greatestInteger = 9223372036854775807 := rfl
  rw [InRange, hleast, hgreatest]
  cases negative <;> simp [signed] <;> omega

/-- A number with more digits is no smaller, so that it is out of range as well. -/
theorem InRange.of_le (hrange : InRange (signed negative number)) {fewer : Nat}
    (hle : fewer ≤ number) : InRange (signed negative fewer) := by
  rw [inRange_signed] at hrange ⊢
  rcases hrange with hless | ⟨rfl, rfl⟩
  · exact .inl (hle.trans_lt hless)
  · exact hle.lt_or_eq.imp_right fun heq => ⟨rfl, heq⟩

theorem signed_step (digit radix : Nat) :
    (if negative then signed negative number * radix - digit
      else signed negative number * radix + digit) =
      signed negative (number * radix + digit) := by
  cases negative <;> simp [signed]
  ring

end Range

/-- Digits are read on exactly if they lead to a number in the range. -/
theorem readDigits_eq_ok_iff {radix : Nat} (hpos : 0 < radix) (hradix : radix ≤ 16)
    {negative : Bool} {before : Nat} {cs : List Char} {value : Int}
    (hbefore : InRange (signed negative before)) :
    readDigits radix negative (signed negative before) cs = .ok value ↔
      ∃ total, DenotesBehind radix before cs total ∧ value = signed negative total ∧
        InRange value := by
  induction cs generalizing before with
  | nil =>
      rw [readDigits, Except.ok.injEq]
      simp only [denotesBehind_nil, exists_eq_left]
      constructor
      · rintro rfl
        exact ⟨rfl, hbefore⟩
      · rintro ⟨rfl, -⟩
        rfl
  | cons c cs ih =>
      rw [readDigits]
      simp only [denotesBehind_cons, ← digitValue?_eq_some_iff hradix]
      cases hdigit : digitValue? radix c with
      | none => simp
      | some digit =>
          simp only [Option.some.injEq, exists_eq_left', signed_step]
          by_cases hnext : InRange (signed negative (before * radix + digit))
          · rw [if_neg (not_lt.mpr hnext.1), if_neg (not_lt.mpr hnext.2), ih hnext]
          · have hout : ¬ ∃ total, DenotesBehind radix (before * radix + digit) cs total ∧
                value = signed negative total ∧ InRange value := by
              rintro ⟨total, htotal, rfl, hrange⟩
              exact hnext (hrange.of_le (htotal.le hpos))
            refine iff_of_false ?_ hout
            rw [InRange, not_and_or, not_le, not_le] at hnext
            split_ifs <;> simp_all

/-- No digit is a sign. -/
theorem Denotes.head?_ne {radix number : Nat} {c : Char} {cs : List Char} (hradix : radix ≤ 16)
    (hnumber : Denotes radix (c :: cs) number) : c ≠ '-' ∧ c ≠ '+' := by
  obtain ⟨digit, hdigit⟩ := hnumber.isDigit List.mem_cons_self
  have hnone {sign : Char} (hsign : digitValue? 16 sign = none) :
      digitValue? radix sign = none := by
    rw [Option.eq_none_iff_forall_ne_some] at hsign ⊢
    exact fun value hvalue => hsign value ((digitValue?_eq_some_of_le hradix).mp hvalue).2
  exact ⟨hdigit.ne hradix (hnone (by decide)), hdigit.ne hradix (hnone (by decide))⟩

/-- From nothing, digits are read exactly if what they denote is in the range. -/
theorem readDigits_zero_eq_ok_iff {radix : Nat} (hpos : 0 < radix) (hradix : radix ≤ 16)
    {negative : Bool} {digits : List Char} {value : Int} :
    readDigits radix negative 0 digits = .ok value ↔ ∃ number, Denotes radix digits number ∧
      value = signed negative number ∧ InRange value := by
  have hzero : InRange (signed negative 0) := inRange_signed.mpr (.inl (by norm_num))
  have hread : readDigits radix negative (signed negative 0) digits = .ok value ↔ _ :=
    readDigits_eq_ok_iff hpos hradix hzero
  simp only [denotesBehind_zero] at hread
  rw [← hread]
  cases negative <;> rfl

/-- Behind a sign, or without one, the digits are read from nothing. -/
theorem Signed.readInteger_eq {radix number : Nat} {negative : Bool} {digits cs : List Char}
    (hsigned : Signed digits negative cs) (hradix : radix ≤ 16) (hne : digits ≠ [])
    (hnumber : Denotes radix digits number) :
    readInteger radix cs = readDigits radix negative 0 digits := by
  cases hsigned with
  | bare =>
      obtain ⟨c, cs, rfl⟩ := List.exists_cons_of_ne_nil hne
      obtain ⟨hminus, hplus⟩ := hnumber.head?_ne hradix
      apply readInteger.eq_4
      · simp
      · rintro digits ⟨⟩
        exact hminus rfl
      · rintro digits ⟨⟩
        exact hplus rfl
  | plus => simp [readInteger, hne]
  | minus => simp [readInteger, hne]

/-- What is read as an integer is digits, perhaps behind a sign. -/
theorem exists_signed_of_readInteger {radix : Nat} {cs : List Char} {value : Int}
    (hread : readInteger radix cs = .ok value) :
    ∃ negative digits, Signed digits negative cs ∧ digits ≠ [] ∧
      readDigits radix negative 0 digits = .ok value := by
  unfold readInteger at hread
  split at hread
  · cases hread
  next digits =>
    split at hread
    · cases hread
    next hne => exact ⟨true, digits, .minus, by simpa using hne, hread⟩
  next digits =>
    split at hread
    · cases hread
    next hne => exact ⟨false, digits, .plus, by simpa using hne, hread⟩
  next hne _ _ => exact ⟨false, cs, .bare, hne, hread⟩

/-- A text is read as an integer exactly if it is digits, perhaps behind a sign, and what
they denote is in the range. -/
theorem readInteger_eq_ok_iff {radix : Nat} (hpos : 0 < radix) (hradix : radix ≤ 16)
    {cs : List Char} {value : Int} :
    readInteger radix cs = .ok value ↔
      ∃ negative digits number, Signed digits negative cs ∧ digits ≠ [] ∧
        Denotes radix digits number ∧ value = signed negative number ∧ InRange value := by
  constructor
  · intro hread
    obtain ⟨negative, digits, hsigned, hne, hdigits⟩ := exists_signed_of_readInteger hread
    obtain ⟨number, hnumber⟩ := (readDigits_zero_eq_ok_iff hpos hradix).mp hdigits
    exact ⟨negative, digits, number, hsigned, hne, hnumber⟩
  · rintro ⟨negative, digits, number, hsigned, hne, hnumber, hvalue⟩
    rw [hsigned.readInteger_eq hradix hne hnumber]
    exact (readDigits_zero_eq_ok_iff hpos hradix).mpr ⟨number, hnumber, hvalue⟩

/-- Digits without a sign are read as what they denote, if that is below `2 ^ 63`. -/
theorem readInteger_digits_eq_ok_iff {radix number : Nat} (hpos : 0 < radix) (hradix : radix ≤ 16)
    {digits : List Char} (hdigits : digits ≠ []) (hnumber : Denotes radix digits number)
    {value : Int} :
    readInteger radix digits = .ok value ↔ value = number ∧ number < 2 ^ 63 := by
  have hrange : InRange (signed false number) ↔ number < 2 ^ 63 := by simp [inRange_signed]
  rw [readInteger_eq_ok_iff hpos hradix]
  constructor
  · rintro ⟨negative, _, other, hsigned, -, hother, rfl, hvalue⟩
    cases hsigned with
    | bare =>
        rw [hother.unique hradix hnumber] at hvalue ⊢
        exact ⟨rfl, hrange.mp hvalue⟩
    | plus => exact absurd rfl (hnumber.head?_ne hradix).2
    | minus => exact absurd rfl (hnumber.head?_ne hradix).1
  · rintro ⟨rfl, hless⟩
    exact ⟨false, digits, number, .bare, hdigits, hnumber, rfl, hrange.mpr hless⟩

end HclEditor.Number
