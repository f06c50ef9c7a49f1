import HclEditor.Text.Utf8

/-!
# Inflating

Deflated data is a sequence of bits, the least significant of each byte first. It
consists of blocks: bytes as they are, or symbols in a prefix code that is either fixed
or described in front of them. A symbol is a byte, the end of the block, or a reference
to bytes that have already been produced.
-/

namespace HclEditor.Inflate

/-- Data that has not been read, bit by bit. -/
abbrev Bits := List Bool

/-- The bits of some bytes. -/
def bitsOf (bytes : Bytes) : Bits :=
  bytes.flatMap fun byte => (List.range 8).map byte.toNat.testBit

/-- Reads a number, its least significant bit first. -/
def readNumber : Nat → Bits → Option (Nat × Bits)
  | 0, bits => some (0, bits)
  | _ + 1, [] => none
  | count + 1, bit :: bits =>
      (readNumber count bits).map fun (value, rest) => (2 * value + bit.toNat, rest)

/-- Reads some bytes at a byte boundary. -/
def readBytes : Nat → Bits → Option (Bytes × Bits)
  | 0, bits => some ([], bits)
  | count + 1, bits => do
      let (byte, bits) ← readNumber 8 bits
      let (bytes, rest) ← readBytes count bits
      return (UInt8.ofNat byte :: bytes, rest)

/-- Skips to the next byte boundary; all bits together are whole bytes. -/
def align (bits : Bits) : Bits :=
  bits.drop (bits.length % 8)

/-- The longest code word. -/
def longestWord : Nat := 15

/-- A canonical prefix code: how many words there are of each length from one on, and the
symbols in the order of their words. -/
structure PrefixCode where
  counts : List Nat
  symbols : Array Nat

namespace PrefixCode

/-- The code in which each symbol has a word of the given length, if that is not zero. -/
def ofLengths (lengths : List Nat) : PrefixCode where
  counts := (List.range longestWord).map fun index => lengths.count (index + 1)
  symbols :=
    ((List.range longestWord).flatMap fun index =>
      (lengths.zipIdx.filter fun entry => entry.1 == index + 1).map Prod.snd).toArray

/-- The words exhaust the code, or there is at most one. -/
def isComplete (code : PrefixCode) : Bool :=
  let used := code.counts.zipIdx.foldl
    (fun sum entry => sum + entry.1 * Nat.pow 2 (longestWord - 1 - entry.2)) 0
  used == Nat.pow 2 longestWord || decide (code.symbols.size ≤ 1)

/-- Reads one symbol. Among the words of the current length, `first` is the least and
`index` the place of its symbol. -/
def readFrom (symbols : Array Nat) (word first index : Nat) :
    List Nat → Bits → Option (Nat × Bits)
  | [], _ => none
  | _ :: _, [] => none
  | count :: counts, bit :: bits =>
      let word := word + bit.toNat
      if first ≤ word ∧ word < first + count then
        symbols[index + (word - first)]?.map fun symbol => (symbol, bits)
      else readFrom symbols (2 * word) (2 * (first + count)) (index + count) counts bits

/-- Reads one symbol. -/
def read (code : PrefixCode) (bits : Bits) : Option (Nat × Bits) :=
  readFrom code.symbols 0 0 0 code.counts bits

end PrefixCode

/-- The least length and the number of extra bits of each length symbol. -/
def lengthTable : Array (Nat × Nat) :=
  #[(3, 0), (4, 0), (5, 0), (6, 0), (7, 0), (8, 0), (9, 0), (10, 0), (11, 1), (13, 1),
    (15, 1), (17, 1), (19, 2), (23, 2), (27, 2), (31, 2), (35, 3), (43, 3), (51, 3),
    (59, 3), (67, 4), (83, 4), (99, 4), (115, 4), (131, 5), (163, 5), (195, 5), (227, 5),
    (258, 0)]

/-- The least distance and the number of extra bits of each distance symbol. -/
def distanceTable : Array (Nat × Nat) :=
  #[(1, 0), (2, 0), (3, 0), (4, 0), (5, 1), (7, 1), (9, 2), (13, 2), (17, 3), (25, 3),
    (33, 4), (49, 4), (65, 5), (97, 5), (129, 6), (193, 6), (257, 7), (385, 7), (513, 8),
    (769, 8), (1025, 9), (1537, 9), (2049, 10), (3073, 10), (4097, 11), (6145, 11),
    (8193, 12), (12289, 12), (16385, 13), (24577, 13)]

/-- Reads the number that a symbol of a table begins. -/
def readExtended (table : Array (Nat × Nat)) (symbol : Nat) (bits : Bits) :
    Option (Nat × Bits) := do
  let (least, extra) ← table[symbol]?
  let (more, bits) ← readNumber extra bits
  return (least + more, bits)

/-- Repeats bytes from a distance behind the end of what has been produced. -/
def copyBack (distance : Nat) : Nat → Array UInt8 → Option (Array UInt8)
  | 0, out => some out
  | length + 1, out =>
      if distance ≤ out.size then do
        let byte ← out[out.size - distance]?
        copyBack distance length (out.push byte)
      else none

/-- The codes of a block. -/
structure BlockCodes where
  literals : PrefixCode
  distances : PrefixCode

/-- Reads symbols up to the end of the block. Every symbol takes a bit, so that as much
fuel as there are bits suffices. -/
def readSymbols (codes : BlockCodes) : Nat → Array UInt8 → Bits → Option (Array UInt8 × Bits)
  | 0, _, _ => none
  | fuel + 1, out, bits => do
      let (symbol, bits) ← codes.literals.read bits
      if symbol < 256 then readSymbols codes fuel (out.push (UInt8.ofNat symbol)) bits
      else if symbol = 256 then return (out, bits)
      else
        let (length, bits) ← readExtended lengthTable (symbol - 257) bits
        let (place, bits) ← codes.distances.read bits
        let (distance, bits) ← readExtended distanceTable place bits
        readSymbols codes fuel (← copyBack distance length out) bits

/-- The codes that need no description. -/
def fixedCodes : BlockCodes where
  literals := .ofLengths
    (List.replicate 144 8 ++ List.replicate 112 9 ++ List.replicate 24 7 ++ List.replicate 8 8)
  distances := .ofLengths (List.replicate 30 5)

/-- The order in which the word lengths of the code for word lengths are given. -/
def lengthOrder : List Nat :=
  [16, 17, 18, 0, 8, 7, 9, 6, 10, 5, 11, 4, 12, 3, 13, 2, 14, 1, 15]

/-- Reads the word lengths of the code for word lengths, three bits each. -/
def readLengthLengths : Nat → Bits → Option (List Nat × Bits)
  | 0, bits => some ([], bits)
  | count + 1, bits => do
      let (length, bits) ← readNumber 3 bits
      let (lengths, bits) ← readLengthLengths count bits
      return (length :: lengths, bits)

/-- Reads word lengths until there are `total` of them. A symbol is a length, or says how
often the last length or zero is repeated. -/
def readLengths (code : PrefixCode) (total : Nat) :
    Nat → Array Nat → Bits → Option (List Nat × Bits)
  | 0, _, _ => none
  | fuel + 1, lengths, bits =>
      if total ≤ lengths.size then
        if lengths.size = total then some (lengths.toList, bits) else none
      else do
        let (symbol, bits) ← code.read bits
        if symbol < 16 then readLengths code total fuel (lengths.push symbol) bits
        else
          let value ← if symbol = 16 then lengths.back? else some 0
          let (extra, least) := if symbol = 16 then (2, 3) else if symbol = 17 then (3, 3)
            else (7, 11)
          let (more, bits) ← readNumber extra bits
          readLengths code total fuel (lengths ++ Array.replicate (least + more) value) bits

/-- Reads the description of a block's codes. -/
def readCodes (bits : Bits) : Option (BlockCodes × Bits) := do
  let (literals, bits) ← readNumber 5 bits
  let (distances, bits) ← readNumber 5 bits
  let (given, bits) ← readNumber 4 bits
  let (lengths, bits) ← readLengthLengths (given + 4) bits
  let assigned := lengthOrder.zip lengths
  let lengthCode := PrefixCode.ofLengths
    ((List.range 19).map fun symbol => (assigned.lookup symbol).getD 0)
  if !lengthCode.isComplete || decide (29 < literals) || decide (29 < distances) then none
  else
    let total := literals + 257 + (distances + 1)
    let (all, bits) ← readLengths lengthCode total (bits.length + 1) #[] bits
    let codes : BlockCodes :=
      ⟨.ofLengths (all.take (literals + 257)), .ofLengths (all.drop (literals + 257))⟩
    if codes.literals.isComplete && codes.distances.isComplete then return (codes, bits)
    else none

/-- Reads a block of bytes as they are: their number, its complement, and the bytes. -/
def readStored (out : Array UInt8) (bits : Bits) : Option (Array UInt8 × Bits) := do
  let (length, bits) ← readNumber 16 (align bits)
  let (complement, bits) ← readNumber 16 bits
  if length + complement = 0xffff then
    let (bytes, bits) ← readBytes length bits
    return (out ++ bytes.toArray, bits)
  else none

/-- Reads a block behind its first bit. -/
def readBlock (out : Array UInt8) (bits : Bits) : Option (Array UInt8 × Bits) := do
  let (kind, bits) ← readNumber 2 bits
  match kind with
  | 0 => readStored out bits
  | 1 => readSymbols fixedCodes (bits.length + 1) out bits
  | 2 =>
      let (codes, bits) ← readCodes bits
      readSymbols codes (bits.length + 1) out bits
  | _ => none

/-- Reads blocks up to the last one, which its first bit marks. Every block takes a bit,
so that as much fuel as there are bits suffices. -/
def readBlocks : Nat → Array UInt8 → Bits → Option (Array UInt8 × Bits)
  | 0, _, _ => none
  | fuel + 1, out, bits => do
      let (last, bits) ← readNumber 1 bits
      let (out, bits) ← readBlock out bits
      if last = 1 then return (out, bits) else readBlocks fuel out bits

/-- The data that was deflated, and the bits behind it. -/
def inflate (bits : Bits) : Option (Bytes × Bits) := do
  let (out, bits) ← readBlocks (bits.length + 1) #[] bits
  return (out.toList, bits)

end HclEditor.Inflate
