import Mathlib
import HclEditor.Storage.Gzip

/-!
# Inflating compressed data

The reader inflates what the writer compresses: it reads the bits of a number in as many
bytes as the number, the blocks of bytes as they are as those bytes, and finds the
checksum and the length behind them.
-/

namespace HclEditor

namespace Inflate

theorem bitsOf_cons (byte : UInt8) (bytes : Bytes) :
    bitsOf (byte :: bytes) = (List.range 8).map byte.toNat.testBit ++ bitsOf bytes :=
  List.flatMap_cons

theorem bitsOf_append (first second : Bytes) :
    bitsOf (first ++ second) = bitsOf first ++ bitsOf second :=
  List.flatMap_append

theorem length_bitsOf (bytes : Bytes) : (bitsOf bytes).length = 8 * bytes.length := by
  induction bytes with
  | nil => rfl
  | cons byte bytes ih => rw [bitsOf_cons, List.length_append, ih]; simp; omega

/-- The bits of a number are read as the number. -/
theorem readNumber_testBit (count value : Nat) (rest : Bits) :
    readNumber count ((List.range count).map value.testBit ++ rest) =
      some (value % 2 ^ count, rest) := by
  induction count generalizing value with
  | zero => rw [List.range_zero, pow_zero, Nat.mod_one]; rfl
  | succ count ih =>
      have htail : (List.range count).map (value.testBit ∘ Nat.succ) =
          (List.range count).map (value / 2).testBit :=
        List.map_congr_left fun index _ => Nat.testBit_succ value index
      rw [List.range_succ_eq_map, List.map_cons, List.map_map, htail, List.cons_append, readNumber,
        ih, Option.map_some, Nat.testBit_zero, pow_succ, Nat.mul_comm, Nat.mod_mul]
      congr 2
      rcases Nat.mod_two_eq_zero_or_one value with hbit | hbit
      · simp [hbit]
      · simp [hbit, Nat.add_comm]

theorem readBytes_bitsOf (bytes : Bytes) (rest : Bits) :
    readBytes bytes.length (bitsOf bytes ++ rest) = some (bytes, rest) := by
  induction bytes with
  | nil => rfl
  | cons byte bytes ih =>
      rw [bitsOf_cons, List.append_assoc, List.length_cons, readBytes, readNumber_testBit]
      simp [ih, Nat.mod_eq_of_lt byte.toNat_lt]

/-- Whole bytes start at a byte boundary. -/
theorem align_append {skipped : Bits} {bytes : Bytes} {rest : Bits}
    (hskipped : skipped.length < 8) (hrest : rest.length % 8 = 0) :
    align (skipped ++ (bitsOf bytes ++ rest)) = bitsOf bytes ++ rest := by
  have hlength : (skipped ++ (bitsOf bytes ++ rest)).length % 8 = skipped.length := by
    simp only [List.length_append, length_bitsOf]
    omega
  rw [align, hlength, List.drop_left]

end Inflate

namespace Gzip

open Inflate

theorem length_littleEndian (count value : Nat) : (littleEndian count value).length = count := by
  induction count generalizing value with
  | zero => rfl
  | succ count ih => rw [littleEndian, List.length_cons, ih]

/-- A number in bytes has the bits of the number. -/
theorem bitsOf_littleEndian (count value : Nat) :
    bitsOf (littleEndian count value) = (List.range (8 * count)).map value.testBit := by
  induction count generalizing value with
  | zero => rfl
  | succ count ih =>
      have hfirst : (List.range 8).map (UInt8.ofNat (value % 256)).toNat.testBit =
          (List.range 8).map value.testBit := by
        refine List.map_congr_left fun index hindex => ?_
        have hbyte : value % 256 < UInt8.size := Nat.mod_lt _ (by decide)
        rw [UInt8.toNat_ofNat_of_lt' hbyte, show 256 = 2 ^ 8 from rfl, Nat.testBit_mod_two_pow,
          decide_eq_true (List.mem_range.mp hindex), Bool.true_and]
      have hothers : (List.range (8 * count)).map (value / 256).testBit =
          (List.range (8 * count)).map (value.testBit ∘ (8 + ·)) := by
        refine List.map_congr_left fun index _ => ?_
        rw [show 256 = 2 ^ 8 from rfl, Nat.testBit_div_two_pow, Nat.add_comm, Function.comp]
      rw [littleEndian, bitsOf_cons, ih, hfirst, hothers, Nat.mul_succ, Nat.add_comm,
        List.range_add, List.map_append, List.map_map]

theorem readNumber_littleEndian (count value : Nat) (rest : Bits) :
    readNumber (8 * count) (bitsOf (littleEndian count value) ++ rest) =
      some (value % 2 ^ (8 * count), rest) := by
  rw [bitsOf_littleEndian, readNumber_testBit]

/-- A block of bytes as they are is read as those bytes. -/
theorem readStored_storedBlock {data : Bytes} (hlength : data.length ≤ blockSize)
    {skipped : Bits} (hskipped : skipped.length < 8) (out : Array UInt8) {rest : Bits}
    (hrest : rest.length % 8 = 0) :
    readStored out (skipped ++ bitsOf (littleEndian 2 data.length ++
      littleEndian 2 (blockSize - data.length) ++ data) ++ rest) =
      some (out ++ data.toArray, rest) := by
  have hsize : blockSize = 65535 := rfl
  have hfirst : data.length % 2 ^ (8 * 2) = data.length := by omega
  have hsecond : (blockSize - data.length) % 2 ^ (8 * 2) = blockSize - data.length := by omega
  rw [readStored, List.append_assoc, align_append hskipped hrest, bitsOf_append, bitsOf_append,
    List.append_assoc, List.append_assoc]
  simp only [readNumber_littleEndian 2, Option.bind_eq_bind, Option.bind_some, hfirst, hsecond,
    readBytes_bitsOf]
  rw [if_pos (by omega)]
  rfl

/-- The first byte of a block says whether it is the last one, and that its bytes are as
they are. -/
theorem readBlocks_storedBlock (last : Bool) {data : Bytes} (hlength : data.length ≤ blockSize)
    (fuel : Nat) (out : Array UInt8) {rest : Bits} (hrest : rest.length % 8 = 0) :
    readBlocks (fuel + 1) out (bitsOf (storedBlock last data) ++ rest) =
      if last then some (out ++ data.toArray, rest)
      else readBlocks fuel (out ++ data.toArray) rest := by
  have hbits : (List.range 8).map (if last then 1 else 0 : UInt8).toNat.testBit =
      last :: false :: false :: List.replicate 5 false := by
    cases last <;> decide
  have hlast : 2 * 0 + last.toNat = 1 ↔ last = true := by cases last <;> decide
  rw [storedBlock, bitsOf_cons, hbits, readBlocks]
  simp only [List.cons_append, readNumber, Option.map_some, Option.bind_eq_bind, Option.bind_some,
    readBlock, hlast, Bool.toNat_false]
  rw [readStored_storedBlock hlength (List.length_replicate.trans_lt (by decide)) out hrest]
  rfl

/-- Blocks of bytes as they are are read as all of their bytes. -/
theorem readBlocks_storedBlocks (data : Bytes) (fuel : Nat) (out : Array UInt8) {rest : Bits}
    (hrest : rest.length % 8 = 0) (hfuel : (storedBlocks data).length < fuel) :
    readBlocks fuel out (bitsOf (storedBlocks data) ++ rest) =
      some (out ++ data.toArray, rest) := by
  obtain ⟨fuel, rfl⟩ := Nat.exists_eq_succ_of_ne_zero (Nat.ne_zero_of_lt hfuel)
  fun_induction storedBlocks data generalizing fuel out with
  | case1 data hlength => exact readBlocks_storedBlock true hlength fuel out hrest
  | case2 data hlength ih =>
      have hothers : (bitsOf (storedBlocks (data.drop blockSize)) ++ rest).length % 8 = 0 := by
        rw [List.length_append, length_bitsOf]
        omega
      rw [storedBlock, List.cons_append, List.length_cons, List.length_append] at hfuel
      obtain ⟨fuel, rfl⟩ := Nat.exists_eq_succ_of_ne_zero (show fuel ≠ 0 by omega)
      rw [bitsOf_append, List.append_assoc, readBlocks_storedBlock false
        (List.length_take_le _ _) _ out hothers, if_neg Bool.false_ne_true, ih _ fuel (by omega)]
      simp

/-- What has been compressed is inflated again. -/
theorem decompress_compress (data : Bytes) : decompress (compress data) = some data := by
  -- The checksum and the length, four bytes each, stand behind the blocks.
  let sum := bitsOf (littleEndian 4 (checksum data).toNat)
  let length := bitsOf (littleEndian 4 data.length)
  have hending : (sum ++ length).length = 64 := by
    simp only [sum, length, List.length_append, length_bitsOf, length_littleEndian]
  have hheader : (skipHeader (compress data)).map bitsOf =
      some (bitsOf (storedBlocks data) ++ (sum ++ length)) := by
    rw [← bitsOf_append, ← bitsOf_append, ← List.append_assoc]
    rfl
  have hinflate : inflate (bitsOf (storedBlocks data) ++ (sum ++ length)) =
      some (data, sum ++ length) := by
    rw [inflate, readBlocks_storedBlocks data _ #[] (by rw [hending])]
    · simp
    · rw [List.length_append, length_bitsOf]
      omega
  have halign : align (sum ++ length) = sum ++ length := by rw [align, hending]; rfl
  have hsum : readNumber 32 (sum ++ length) = some ((checksum data).toNat, length) := by
    have hread := readNumber_littleEndian 4 (checksum data).toNat length
    rwa [Nat.mod_eq_of_lt (checksum data).toNat_lt] at hread
  have hlength : readNumber 32 length = some (data.length % 2 ^ 32, []) := by
    have hread := readNumber_littleEndian 4 data.length []
    rwa [List.append_nil] at hread
  obtain ⟨deflated, hdeflated, hbits⟩ := Option.map_eq_some_iff.mp hheader
  simp only [decompress, hdeflated, Option.bind_eq_bind, Option.bind_some, hbits, hinflate, halign,
    hsum, hlength]
  exact if_pos ⟨trivial, rfl⟩

/-- What can be inflated starts with the magic bytes. -/
theorem magic_prefix_of_decompress {bytes data : Bytes} (hdata : decompress bytes = some data) :
    magic.isPrefixOf bytes = true := by
  rw [decompress, Option.bind_eq_bind, Option.bind_eq_some_iff] at hdata
  obtain ⟨deflated, hdeflated, -⟩ := hdata
  unfold skipHeader at hdeflated
  split at hdeflated
  · rfl
  · cases hdeflated

end Gzip

end HclEditor
