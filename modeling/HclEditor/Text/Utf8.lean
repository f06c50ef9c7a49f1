/-!
# UTF-8

Texts are stored as bytes in UTF-8. Decoding accepts exactly the well-formed sequences:
the shortest form of every character that is not a surrogate. The first sequence that is
not well-formed is reported by where it starts and how many of its bytes could still have
begun a character.
-/

namespace HclEditor

/-- The contents of a file. -/
abbrev Bytes := List UInt8

namespace Text

/-- Why bytes are no text: from an index on, some bytes belong to no character, or the
last character lacks bytes. -/
inductive Utf8Fault where
  | invalid (length index : Nat)
  | incomplete (index : Nat)
deriving DecidableEq, Repr

/-- The wording of malformed UTF-8. -/
def Utf8Fault.message : Utf8Fault → String
  | .invalid length index => s!"invalid utf-8 sequence of {length} bytes from index {index}"
  | .incomplete index => s!"incomplete utf-8 byte sequence from index {index}"

/-- The bytes of a text. -/
def encode (text : String) : Bytes :=
  text.toList.flatMap String.utf8EncodeChar

/-- What the first byte of a sequence says: its share of the character's code, the bounds
of the second byte, and the number of bytes behind the first. -/
structure Lead where
  bits : Nat
  low : Nat := 0x80
  high : Nat := 0xbf
  more : Nat

/-- The bytes that begin a character. The bounds of the second byte exclude codes with a
shorter form, surrogates, and codes beyond the last character. -/
def lead? (byte : Nat) : Option Lead :=
  if byte < 0x80 then some { bits := byte, more := 0 }
  else if byte < 0xc2 then none
  else if byte < 0xe0 then some { bits := byte - 0xc0, more := 1 }
  else if byte = 0xe0 then some { bits := 0, low := 0xa0, more := 2 }
  else if byte = 0xed then some { bits := 0xd, high := 0x9f, more := 2 }
  else if byte < 0xf0 then some { bits := byte - 0xe0, more := 2 }
  else if byte = 0xf0 then some { bits := 0, low := 0x90, more := 3 }
  else if byte < 0xf4 then some { bits := byte - 0xf0, more := 3 }
  else if byte = 0xf4 then some { bits := 4, high := 0x8f, more := 3 }
  else none

/-- The code of a character of which `more` bytes are still to be read, the next one
between the given bounds. `index` is where the character starts, `read` the number of
its bytes that have been read. -/
def readMore (index read bits low high : Nat) : Nat → Bytes → Except Utf8Fault Nat
  | 0, _ => .ok bits
  | _ + 1, [] => .error (.incomplete index)
  | more + 1, byte :: bytes =>
      if low ≤ byte.toNat ∧ byte.toNat ≤ high then
        readMore index (read + 1) (bits * 64 + (byte.toNat - 0x80)) 0x80 0xbf more bytes
      else .error (.invalid read index)

/-- The characters of bytes that start at an index. -/
def decodeFrom (index : Nat) (bytes : Bytes) : Except Utf8Fault (List Char) :=
  match bytes with
  | [] => .ok []
  | byte :: rest =>
      match lead? byte.toNat with
      | none => .error (.invalid 1 index)
      | some lead =>
          match readMore index 1 lead.bits lead.low lead.high lead.more rest with
          | .error fault => .error fault
          | .ok code =>
              (decodeFrom (index + 1 + lead.more) (rest.drop lead.more)).map
                (Char.ofNat code :: ·)
termination_by bytes.length

/-- The text that bytes stand for. -/
def decode (bytes : Bytes) : Except Utf8Fault String :=
  (decodeFrom 0 bytes).map String.ofList

end Text

end HclEditor
