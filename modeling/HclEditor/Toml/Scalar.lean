import HclEditor.Number.Binary64
import HclEditor.Number.Integer

/-!
# Scalars of TOML

Strings, numbers, truth values and times as they are written in TOML documents. What a
string or a number is matters to the settings; of times it only matters whether they are
well-formed.
-/

namespace HclEditor.Toml

/-- A scalar. Floating point numbers and times are not told apart. -/
inductive Scalar where
  | string (text : String)
  | integer (value : Int)
  | boolean (value : Bool)
  | other
deriving DecidableEq, Repr

/-- A space or a tab. -/
def isSpace (c : Char) : Bool :=
  c == ' ' || c == '\t'

/-- The characters that may stand in comments and, but for the delimiters, in strings:
no control characters except for tabs. -/
def isPlain (c : Char) : Bool :=
  c == '\t' || (decide (0x20 ≤ c.toNat) && c.toNat != 0x7f)

/-- The rest behind a line end, if the text starts with one. -/
def skipLineEnd? : List Char → Option (List Char)
  | '\n' :: cs => some cs
  | '\r' :: '\n' :: cs => some cs
  | _ => none

/-- The character with a code in hexadecimal digits. -/
def charOfHex? (digits : List Char) : Option Char := do
  let values ← digits.mapM (Number.digitValue? 16)
  let code := values.foldl (fun code value => code * 16 + value) 0
  if code.isValidChar then some (Char.ofNat code) else none

/-- The character that stands behind a backslash for another one. -/
def escaped? : Char → Option Char
  | 'b' => some '\x08'
  | 't' => some '\t'
  | 'n' => some '\n'
  | 'f' => some '\x0c'
  | 'r' => some '\r'
  | '"' => some '"'
  | '\\' => some '\\'
  | _ => none

/-- Puts a character in front of a text that has been read. -/
def prepend (c : Char) (read : Option (List Char × List Char)) :
    Option (List Char × List Char) :=
  read.map fun (text, rest) => (c :: text, rest)

/-- A string in double quotes, behind the first of them, and what follows it. -/
def readBasic : List Char → Option (List Char × List Char)
  | '"' :: cs => some ([], cs)
  | '\\' :: 'u' :: a :: b :: c :: d :: cs => do
      prepend (← charOfHex? [a, b, c, d]) (readBasic cs)
  | '\\' :: 'U' :: a :: b :: c :: d :: e :: f :: g :: h :: cs => do
      prepend (← charOfHex? [a, b, c, d, e, f, g, h]) (readBasic cs)
  | '\\' :: c :: cs => do prepend (← escaped? c) (readBasic cs)
  | c :: cs => if isPlain c then prepend c (readBasic cs) else none
  | [] => none

/-- A string in single quotes, behind the first of them, and what follows it. -/
def readLiteral : List Char → Option (List Char × List Char)
  | '\'' :: cs => some ([], cs)
  | c :: cs => if isPlain c then prepend c (readLiteral cs) else none
  | [] => none

/-- A backslash at the end of a line. -/
def breaksLine (cs : List Char) : Bool :=
  (skipLineEnd? (cs.dropWhile isSpace)).isSome

/-- A string in triple double quotes, behind the first three of them, and what follows
it. While `skipping`, the blanks behind a backslash at a line's end are passed over. -/
def readBasicLines (skipping : Bool) : List Char → Option (List Char × List Char)
  | '"' :: '"' :: '"' :: '"' :: '"' :: cs => some (['"', '"'], cs)
  | '"' :: '"' :: '"' :: '"' :: cs => some (['"'], cs)
  | '"' :: '"' :: '"' :: cs => some ([], cs)
  | '\r' :: '\n' :: cs =>
      if skipping then readBasicLines true cs else prepend '\n' (readBasicLines false cs)
  | '\n' :: cs =>
      if skipping then readBasicLines true cs else prepend '\n' (readBasicLines false cs)
  | '\\' :: 'u' :: a :: b :: c :: d :: cs => do
      prepend (← charOfHex? [a, b, c, d]) (readBasicLines false cs)
  | '\\' :: 'U' :: a :: b :: c :: d :: e :: f :: g :: h :: cs => do
      prepend (← charOfHex? [a, b, c, d, e, f, g, h]) (readBasicLines false cs)
  | '\\' :: c :: cs =>
      if breaksLine (c :: cs) then readBasicLines true cs
      else do prepend (← escaped? c) (readBasicLines false cs)
  | c :: cs =>
      if skipping && isSpace c then readBasicLines true cs
      else if isPlain c then prepend c (readBasicLines false cs)
      else none
  | [] => none

/-- A string in triple single quotes, behind the first three of them, and what follows
it. -/
def readLiteralLines : List Char → Option (List Char × List Char)
  | '\'' :: '\'' :: '\'' :: '\'' :: '\'' :: cs => some (['\'', '\''], cs)
  | '\'' :: '\'' :: '\'' :: '\'' :: cs => some (['\''], cs)
  | '\'' :: '\'' :: '\'' :: cs => some ([], cs)
  | '\r' :: '\n' :: cs => prepend '\n' (readLiteralLines cs)
  | '\n' :: cs => prepend '\n' (readLiteralLines cs)
  | c :: cs => if isPlain c then prepend c (readLiteralLines cs) else none
  | [] => none

/-- The text without a line end at its front. -/
def dropLineEnd (cs : List Char) : List Char :=
  (skipLineEnd? cs).getD cs

/-- A string with its delimiters, and what follows it. -/
def readString? : List Char → Option (List Char × List Char)
  | '"' :: '"' :: '"' :: cs => readBasicLines false (dropLineEnd cs)
  | '"' :: cs => readBasic cs
  | '\'' :: '\'' :: '\'' :: cs => readLiteralLines (dropLineEnd cs)
  | '\'' :: cs => readLiteral cs
  | _ => none

/-- The digits of a number without the underscores, each of which has to stand between
two digits. -/
def digits? (isDigit : Char → Bool) : List Char → Option (List Char)
  | [] => none
  | [c] => if isDigit c then some [c] else none
  | c :: '_' :: cs => if isDigit c then (digits? isDigit cs).map (c :: ·) else none
  | c :: cs => if isDigit c then (digits? isDigit cs).map (c :: ·) else none

/-- A sign, if there is one, and what follows it. -/
def splitSign : List Char → List Char × List Char
  | '+' :: cs => (['+'], cs)
  | '-' :: cs => (['-'], cs)
  | cs => ([], cs)

/-- Decimal digits of a whole number, which start with zero only if that is all. -/
def wholeDigits? (cs : List Char) : Option (List Char) :=
  match digits? Char.isDigit cs with
  | some ('0' :: _ :: _) => none
  | found => found

/-- A whole number of 64 bits in the radix. -/
def integer? (radix : Nat) (digits : List Char) : Option Scalar :=
  match Number.readInteger radix digits with
  | .ok value => some (.integer value)
  | .error _ => none

/-- Digits of a radix that is named in front of them. -/
def radixInteger? (radix : Nat) (cs : List Char) : Option Scalar := do
  integer? radix (← digits? (fun c => (Number.digitValue? radix c).isSome) cs)

/-- A whole number in any notation. -/
def readInteger? : List Char → Option Scalar
  | '0' :: 'x' :: cs => radixInteger? 16 cs
  | '0' :: 'o' :: cs => radixInteger? 8 cs
  | '0' :: 'b' :: cs => radixInteger? 2 cs
  | cs => do
      let (sign, rest) := splitSign cs
      integer? 10 (sign ++ (← wholeDigits? rest))

/-- The digits behind a point and behind an exponent's letter, if there are any. -/
def splitFloat (cs : List Char) : List Char × Option (List Char) × Option (List Char) :=
  let isMark (c : Char) := c == 'e' || c == 'E'
  let mantissa := cs.takeWhile fun c => !isMark c
  let whole := mantissa.takeWhile (· != '.')
  let fraction := (mantissa.drop whole.length).tail?
  let exponent := (cs.drop mantissa.length).tail?
  (whole, fraction, exponent)

/-- A floating point number. Those too large for the binary format are refused. -/
def readFloat? (cs : List Char) : Option Scalar := do
  let (sign, rest) := splitSign cs
  if rest = "inf".toList ∨ rest = "nan".toList then return .other
  let (whole, fraction, exponent) := splitFloat rest
  if fraction.isNone && exponent.isNone then none
  else
    let whole ← wholeDigits? whole
    let fraction ←
      match fraction with
      | some digits => (digits? Char.isDigit digits).map ('.' :: ·)
      | none => some []
    let exponent ←
      match exponent with
      | some digits =>
          let (sign, digits) := splitSign digits
          (digits? Char.isDigit digits).map fun digits => 'e' :: (sign ++ digits)
      | none => some []
    match Number.Decimal.read? (whole ++ fraction ++ exponent) with
    | none => none
    | some decimal =>
        match Number.Binary64.ofDecimal decimal, sign with
        | .infinite, ['-'] => some .other
        | .infinite, _ => none
        | _, _ => some .other

/-- The number that exactly two digits denote. -/
def twoDigits? : List Char → Option Nat
  | [a, b] => if a.isDigit && b.isDigit then some (Number.Decimal.ofDigits [a, b]) else none
  | _ => none

/-- The number of days in a month of a year. -/
def daysIn (year month : Nat) : Nat :=
  if month = 2 then
    if year % 4 = 0 ∧ (year % 100 ≠ 0 ∨ year % 400 = 0) then 29 else 28
  else if month ∈ [4, 6, 9, 11] then 30
  else 31

/-- The ten characters of a date. -/
def isDate (cs : List Char) : Bool :=
  let year := cs.take 4
  match cs.drop 4, year.all Char.isDigit with
  | ['-', a, b, '-', c, d], true =>
      match twoDigits? [a, b], twoDigits? [c, d] with
      | some month, some day =>
          decide (1 ≤ month) && decide (month ≤ 12) && decide (1 ≤ day) &&
            decide (day ≤ daysIn (Number.Decimal.ofDigits year) month)
      | _, _ => false
  | _, _ => false

/-- Two digits that denote a number up to a limit. -/
def isUpTo (limit : Nat) (cs : List Char) : Bool :=
  (twoDigits? cs).any fun value => decide (value ≤ limit)

/-- An offset from universal time, or nothing. -/
def isOffset : List Char → Bool
  | [] => true
  | ['Z'] => true
  | ['z'] => true
  | [sign, a, b, ':', c, d] =>
      (sign == '+' || sign == '-') && isUpTo 23 [a, b] && isUpTo 59 [c, d]
  | _ => false

/-- A time of day with an optional fraction of a second; only with a date may an offset
follow. -/
def isTime (withOffset : Bool) : List Char → Bool
  | a :: b :: ':' :: c :: d :: ':' :: e :: f :: rest =>
      isUpTo 23 [a, b] && isUpTo 59 [c, d] && isUpTo 60 [e, f] &&
        isEnd (match rest with
          | '.' :: digits =>
              let fraction := digits.takeWhile Char.isDigit
              if fraction.isEmpty then none else some (digits.drop fraction.length)
          | _ => some rest)
  | _ => false
where
  /-- What may follow the seconds. -/
  isEnd : Option (List Char) → Bool
    | none => false
    | some rest => if withOffset then isOffset rest else rest.isEmpty

/-- A date, a time, or both. -/
def isDateTime (cs : List Char) : Bool :=
  isTime false cs || isDate cs ||
    (isDate (cs.take 10) &&
      match cs.drop 10 with
      | mark :: time => (mark == 'T' || mark == 't' || mark == ' ') && isTime true time
      | [] => false)

/-- A scalar without delimiters. -/
def readWord? (cs : List Char) : Option Scalar :=
  if cs = "true".toList then some (.boolean true)
  else if cs = "false".toList then some (.boolean false)
  else if isDateTime cs then some .other
  else readInteger? cs <|> readFloat? cs

/-- The characters of scalars without delimiters. -/
def isWordChar (c : Char) : Bool :=
  c.isAlphanum || c == '_' || c == '+' || c == '-' || c == '.' || c == ':'

/-- The length of a scalar without delimiters. A space inside belongs to it if it stands
between a date and a time. -/
def wordLength (cs : List Char) : Nat :=
  let first := cs.takeWhile isWordChar
  match cs.drop first.length with
  | ' ' :: c :: rest =>
      if isDate first && c.isDigit then
        first.length + 1 + ((c :: rest).takeWhile isWordChar).length
      else first.length
  | _ => first.length

end HclEditor.Toml
