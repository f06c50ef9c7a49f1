import HclEditor.Storage.Inflate

/-!
# The gzip format

A gzip file is a header, deflated data, and the checksum and length of the data. The
reader checks both and ignores what follows them. The writer stores the data in blocks
of bytes as they are. What uses the format leaves both open, since only few of their
properties matter to it.
-/

namespace HclEditor.Gzip

/-- The bytes that every gzip file starts with. -/
def magic : Bytes :=
  [0x1f, 0x8b]

/-- One bit of the checksum's division. -/
def checksumBit (sum : UInt32) : UInt32 :=
  if sum &&& 1 = 1 then (sum >>> 1) ^^^ 0xedb88320 else sum >>> 1

/-- One byte of the checksum's division. -/
def checksumByte (sum : UInt32) (byte : UInt8) : UInt32 :=
  (List.range 8).foldl (fun sum _ => checksumBit sum) (sum ^^^ byte.toUInt32)

/-- The cyclic redundancy check of 32 bits. -/
def checksum (bytes : Bytes) : UInt32 :=
  bytes.foldl checksumByte 0xffffffff ^^^ 0xffffffff

/-- A number in a fixed number of bytes, the least significant first. -/
def littleEndian : Nat → Nat → Bytes
  | 0, _ => []
  | count + 1, value => UInt8.ofNat (value % 256) :: littleEndian count (value / 256)

/-- The number that some bytes denote, the least significant first. -/
def ofLittleEndian (bytes : Bytes) : Nat :=
  bytes.foldr (fun byte value => byte.toNat + 256 * value) 0

/-- The greatest length of a text in a header. -/
def longestText : Nat := 65535

/-- Skips a text that a zero byte ends. -/
def skipText (bytes : Bytes) : Option Bytes :=
  let text := bytes.takeWhile (· != 0)
  if longestText < text.length then none
  else
    match bytes.drop text.length with
    | [] => none
    | _ :: rest => some rest

/-- Skips an extra field: its length in two bytes, and that many bytes. -/
def skipExtra (bytes : Bytes) : Option Bytes :=
  match bytes with
  | low :: high :: rest =>
      let length := ofLittleEndian [low, high]
      if length ≤ rest.length then some (rest.drop length) else none
  | _ => none

/-- Checks the header's own checksum, half of the checksum of what precedes it. -/
def skipChecksum (bytes rest : Bytes) : Option Bytes :=
  match rest with
  | low :: high :: behind =>
      let header := bytes.take (bytes.length - rest.length)
      if ofLittleEndian [low, high] = (checksum header).toNat % 65536 then some behind
      else none
  | _ => none

/-- Skips a header. Its flags say which optional parts there are; unknown flags are
refused. -/
def skipHeader (bytes : Bytes) : Option Bytes :=
  match bytes with
  | 0x1f :: 0x8b :: 8 :: flags :: _ :: _ :: _ :: _ :: _ :: _ :: rest => do
      let has (bit : Nat) : Bool := flags.toNat.testBit bit
      if flags &&& 0xe0 ≠ 0 then none
      else
        let rest ← if has 2 then skipExtra rest else some rest
        let rest ← if has 3 then skipText rest else some rest
        let rest ← if has 4 then skipText rest else some rest
        if has 1 then skipChecksum bytes rest else some rest
  | _ => none

/-- The data of a gzip file. -/
def decompress (bytes : Bytes) : Option Bytes := do
  let deflated ← skipHeader bytes
  let (data, rest) ← Inflate.inflate (Inflate.bitsOf deflated)
  let rest := Inflate.align rest
  let (sum, rest) ← Inflate.readNumber 32 rest
  let (length, _) ← Inflate.readNumber 32 rest
  if sum = (checksum data).toNat ∧ length = data.length % Nat.pow 2 32 then some data else none

/-- The largest block of bytes as they are. -/
def blockSize : Nat := 65535

/-- A block of bytes as they are. The first bit of its first byte says whether it is the
last one. -/
def storedBlock (last : Bool) (data : Bytes) : Bytes :=
  (if last then 1 else 0) ::
    (littleEndian 2 data.length ++ littleEndian 2 (blockSize - data.length) ++ data)

/-- The data in blocks of bytes as they are. -/
def storedBlocks (data : Bytes) : Bytes :=
  if data.length ≤ blockSize then storedBlock true data
  else storedBlock false (data.take blockSize) ++ storedBlocks (data.drop blockSize)
termination_by data.length
decreasing_by
  simp only [List.length_drop, blockSize] at *
  omega

/-- A gzip file with the given data. -/
def compress (data : Bytes) : Bytes :=
  magic ++ [8, 0, 0, 0, 0, 0, 0, 0xff] ++ storedBlocks data ++
    littleEndian 4 (checksum data).toNat ++ littleEndian 4 data.length

/-- A way to compress data, and to find the data of a gzip file. -/
structure Codec where
  compress : Bytes → Bytes := Gzip.compress
  decompress : Bytes → Option Bytes := Gzip.decompress

end HclEditor.Gzip
