import Mathlib
import HclEditor.Text.Utf8

/-!
# Decoding encoded texts

Decoding undoes encoding: the first byte of every character tells how the others are to be
read, and they are within the bounds that it sets.
-/

namespace HclEditor.Text

/-- The first byte tells how many bytes follow it and what it adds to the code, and allows
the second byte. -/
def Leads (byte bits second more : Nat) : Prop :=
  ∃ lead, lead? byte = some lead ∧ lead.bits = bits ∧ lead.more = more ∧
    lead.low ≤ second ∧ second ≤ lead.high

section Leads

variable {code : Nat}

theorem leads_two (hleast : 0x7f < code) (hmost : code ≤ 0x7ff) :
    Leads (code / 64 % 32 + 192) (code / 64) (code % 64 + 128) 1 := by
  unfold Leads lead?
  repeat' split
  all_goals first | omega | exact ⟨_, rfl, by dsimp only; omega, rfl, by dsimp only; omega⟩

theorem leads_three (hleast : 0x7ff < code) (hmost : code ≤ 0xffff)
    (hvalid : code < 0xd800 ∨ 0xdfff < code) :
    Leads (code / 4096 % 16 + 224) (code / 4096) (code / 64 % 64 + 128) 2 := by
  unfold Leads lead?
  repeat' split
  all_goals first | omega | exact ⟨_, rfl, by dsimp only; omega, rfl, by dsimp only; omega⟩

theorem leads_four (hleast : 0xffff < code) (hmost : code < 0x110000) :
    Leads (code / 262144 % 8 + 240) (code / 262144) (code / 4096 % 64 + 128) 3 := by
  unfold Leads lead?
  repeat' split
  all_goals first | omega | exact ⟨_, rfl, by dsimp only; omega, rfl, by dsimp only; omega⟩

end Leads

/-- A byte within the bounds adds six bits. -/
theorem readMore_ofNat {index read bits low high more byte : Nat} {bytes : Bytes}
    (hlow : low ≤ byte) (hhigh : byte ≤ high) (hbyte : byte < 256) :
    readMore index read bits low high (more + 1) (UInt8.ofNat byte :: bytes) =
      readMore index (read + 1) (bits * 64 + (byte - 0x80)) 0x80 0xbf more bytes := by
  rw [readMore, UInt8.toNat_ofNat_of_lt' hbyte, if_pos ⟨hlow, hhigh⟩]

section Sequences

variable {index byte bits second more : Nat} {tail : Bytes} {c : Char}

/-- Bytes that are read as the code of a character are decoded to it. -/
theorem decodeFrom_sequence (rest : Bytes) (hbyte : byte < 256)
    (hleads : Leads byte bits second more) (htail : tail.length = more)
    (hread : ∀ low high, low ≤ second → second ≤ high →
      readMore index 1 bits low high more (tail ++ rest) = .ok c.toNat) :
    decodeFrom index (UInt8.ofNat byte :: tail ++ rest) =
      (decodeFrom (index + 1 + more) rest).map (c :: ·) := by
  obtain ⟨lead, hlead, rfl, rfl, hlow, hhigh⟩ := hleads
  rw [List.cons_append, decodeFrom, UInt8.toNat_ofNat_of_lt' hbyte, hlead]
  simp only [hread _ _ hlow hhigh, List.drop_left' htail, Char.ofNat_toNat]

end Sequences

/-- The bytes of a character are decoded to it. -/
theorem decodeFrom_encodeChar (index : Nat) (c : Char) (rest : Bytes) :
    ∃ next, decodeFrom index (String.utf8EncodeChar c ++ rest) =
      (decodeFrom next rest).map (c :: ·) := by
  have hvalid : c.toNat < 0xd800 ∨ 0xdfff < c.toNat ∧ c.toNat < 0x110000 := c.valid
  have hcode : c.val.toNat = c.toNat := rfl
  simp only [String.utf8EncodeChar, hcode]
  generalize hchar : c.toNat = code at hvalid
  split
  next hone =>
    have hleads : Leads code code 0x80 0 := ⟨_, if_pos (by omega), rfl, rfl, by simp, by simp⟩
    exact ⟨_, decodeFrom_sequence rest (by omega) hleads rfl fun _ _ _ _ => congrArg _ hchar.symm⟩
  next hone =>
    split
    next htwo =>
      refine ⟨_, decodeFrom_sequence rest (by omega) (leads_two (by omega) htwo) rfl ?_⟩
      intro low high hlow hhigh
      simp only [List.cons_append, readMore_ofNat hlow hhigh (by omega), readMore, hchar]
      exact congrArg Except.ok (by omega)
    next htwo =>
      split
      next hthree =>
        refine ⟨_, decodeFrom_sequence rest (by omega)
          (leads_three (by omega) hthree (by omega)) rfl ?_⟩
        intro low high hlow hhigh
        rw [List.cons_append, readMore_ofNat hlow hhigh (by omega), List.cons_append,
          readMore_ofNat (by omega) (by omega) (by omega), readMore, hchar]
        exact congrArg Except.ok (by omega)
      next hthree =>
        refine ⟨_, decodeFrom_sequence rest (by omega)
          (leads_four (by omega) (by omega)) rfl ?_⟩
        intro low high hlow hhigh
        rw [List.cons_append, readMore_ofNat hlow hhigh (by omega), List.cons_append,
          readMore_ofNat (by omega) (by omega) (by omega), List.cons_append,
          readMore_ofNat (by omega) (by omega) (by omega), readMore, hchar]
        exact congrArg Except.ok (by omega)

/-- Decoding undoes encoding. -/
theorem decode_encode (text : String) : decode (encode text) = .ok text := by
  have hchars (cs : List Char) (index : Nat) :
      decodeFrom index (cs.flatMap String.utf8EncodeChar) = .ok cs := by
    induction cs generalizing index with
    | nil => rw [List.flatMap_nil, decodeFrom]
    | cons c cs ih =>
        obtain ⟨next, hnext⟩ := decodeFrom_encodeChar index c (cs.flatMap String.utf8EncodeChar)
        rw [List.flatMap_cons, hnext, ih]
        rfl
  rw [decode, encode, hchars]
  exact congrArg Except.ok String.ofList_toList

end HclEditor.Text
