import HclEditor.Document.Basic
import HclEditor.Number.Integer
import HclEditor.Number.Binary64

/-!
# What a literal says

The content of a literal is the text that it stands for: a string without its quotes and
with its escapes resolved, the lines inside a heredoc, a number in plain decimal
notation. A literal whose text does not have the form of its kind says just that text.
-/

namespace HclEditor

namespace Literal

/-- The character whose code is written with at most four hexadecimal digits. A plus sign
may stand in front of them. -/
def charOfHex? (cs : List Char) : Option Char :=
  if cs.head? = some '-' then none
  else
    match Number.readInteger 16 cs with
    | .ok code => if code.toNat.isValidChar then some (Char.ofNat code.toNat) else none
    | .error _ => none

/-- Resolves the escapes of a string. A backslash with one of `n`, `t`, `r`, a quote or a
backslash stands for a character; so does a backslash with `u`, if the four characters
behind it are the code of one. Every other backslash stands for itself. -/
def unescape : List Char → List Char
  | '\\' :: 'n' :: cs => '\n' :: unescape cs
  | '\\' :: 't' :: cs => '\t' :: unescape cs
  | '\\' :: 'r' :: cs => '\r' :: unescape cs
  | '\\' :: '"' :: cs => '"' :: unescape cs
  | '\\' :: '\\' :: cs => '\\' :: unescape cs
  | '\\' :: 'u' :: cs =>
      match charOfHex? (cs.take 4) with
      | some c => c :: unescape (cs.drop 4)
      | none => '\\' :: 'u' :: (cs.take 4 ++ unescape (cs.drop 4))
  | c :: cs => c :: unescape cs
  | [] => []
termination_by cs => cs.length

/-- The text between the quotes, if it has one at either end. -/
def unquote (cs : List Char) : List Char :=
  match cs with
  | '"' :: rest => if rest.getLast? = some '"' then rest.dropLast else cs
  | _ => cs

/-- The content of a string. -/
def stringContent (text : List Char) : List Char :=
  unescape (unquote text)

/-- The lines of a text. A line feed ends a line together with a carriage return in front
of it; behind the last line feed there is a line only if there is a character. -/
def lines : List Char → List (List Char)
  | [] => []
  | '\n' :: cs => [] :: lines cs
  | '\r' :: '\n' :: cs => [] :: lines cs
  | c :: cs =>
      match lines cs with
      | line :: rest => (c :: line) :: rest
      | [] => [[c]]

/-- The number of spaces and tabs at the front of a line. -/
def indentation (line : List Char) : Nat :=
  (line.takeWhile fun c => c == ' ' || c == '\t').length

/-- The lines inside a heredoc. If a dash stands in front of its anchor, every line loses
its own indentation as far as the closing line is indented. -/
def heredocLines (text : List Char) : List (List Char) :=
  let inside := (lines text).tail
  match inside.getLast? with
  | none => []
  | some closing =>
      if "<<-".toList.isPrefixOf text then
        inside.dropLast.map fun line =>
          line.drop (min (indentation line) (indentation closing))
      else inside.dropLast

/-- The content of a heredoc. -/
def heredocContent (text : List Char) : List Char :=
  ['\n'].intercalate (heredocLines text)

/-- The integer that a number denotes: an optional sign in front of decimal digits, or of
hexadecimal ones behind their marker. -/
def readNumber (text : List Char) : Except Number.IntegerFault Int :=
  match text with
  | '-' :: digits => (readUnsigned digits).map Number.negate
  | '+' :: digits => readUnsigned digits
  | digits => readUnsigned digits
where
  /-- The digits with their marker. -/
  readUnsigned : List Char → Except Number.IntegerFault Int
    | '0' :: 'x' :: digits => Number.readInteger 16 digits
    | '0' :: 'X' :: digits => Number.readInteger 16 digits
    | digits => Number.readInteger 10 digits

/-- A floating point number in positional notation, with the fewest digits that denote
it. -/
def floatText (negative : Bool) (magnitude : Number.Magnitude Number.Binary64) : String :=
  let sign := if negative then "-" else ""
  match magnitude with
  | .finite number => sign ++ number.shortest.positional
  | .infinite => sign ++ "inf"
  | .undefined => "NaN"

/-- The number nearest to a decimal, or the number without digits that was named. -/
def nearest : Number.Magnitude Number.Decimal → Number.Magnitude Number.Binary64
  | .finite decimal => Number.Binary64.ofDecimal decimal
  | .infinite => .infinite
  | .undefined => .undefined

/-- What a literal says. -/
def content (literal : Literal) : String :=
  match literal.kind with
  | .string => String.ofList (stringContent literal.text.toList)
  | .heredoc => String.ofList (heredocContent literal.text.toList)
  | .number =>
      match readNumber literal.text.toList with
      | .ok value => toString value
      | .error _ => literal.text
  | .float =>
      match Number.Decimal.readSigned literal.text.toList with
      | .ok (negative, magnitude) => floatText negative (nearest magnitude)
      | .error _ => literal.text
  | .bool => literal.text

end Literal

end HclEditor
