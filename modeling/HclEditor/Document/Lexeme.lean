import HclEditor.Document.Token
import HclEditor.Text.Numeric
import HclEditor.Text.Blank

/-!
# Lexemes

How far a token reaches. Every function below looks at the text behind the characters
that have already been recognised and counts the characters that still belong to the
token. Positions do not occur here: a fault comes with the number of characters of the
token in front of the place that it is reported at.
-/

namespace HclEditor

/-- Why no token can be read. -/
inductive LexicalFault where
  | unterminatedBlockComment
  | unterminatedString
  | unterminatedInterpolation
  | heredocWithoutAnchor
  | heredocAnchorNotAlone
  | heredocNotClosed (anchor : String)
  | unexpectedCharacter (c : Char)
deriving DecidableEq, Repr

namespace LexicalFault

/-- The wording of a lexical fault. -/
def message : LexicalFault → String
  | .unterminatedBlockComment => "unterminated block comment"
  | .unterminatedString => "unterminated string"
  | .unterminatedInterpolation => "unterminated interpolation"
  | .heredocWithoutAnchor => "heredoc is missing its anchor"
  | .heredocAnchorNotAlone => "heredoc anchor must be followed by a newline"
  | .heredocNotClosed anchor => "heredoc '" ++ anchor ++ "' is never closed"
  | .unexpectedCharacter c => "unexpected character '" ++ String.singleton c ++ "'"

end LexicalFault

namespace Lexeme

/-- The characters that separate tokens. -/
def isGap (c : Char) : Bool :=
  c == ' ' || c == '\t' || c == '\r' || c == '\n'

/-- The characters an identifier starts with. -/
def startsIdentifier (c : Char) : Bool :=
  Text.isAlphabetic c || c == '_'

/-- The characters an identifier goes on with. -/
def continuesIdentifier (c : Char) : Bool :=
  Text.isAlphanumeric c || c == '_' || c == '-' || c == '.'

/-- The characters of a heredoc's anchor. -/
def isAnchorChar (c : Char) : Bool :=
  Text.isAlphanumeric c || c == '_'

/-- A hexadecimal digit, in either case. -/
def isHexDigit (c : Char) : Bool :=
  c.isDigit || (decide ('a' ≤ c) && decide (c ≤ 'f')) ||
    (decide ('A' ≤ c) && decide (c ≤ 'F'))

/-- The rest of the line. -/
def lineRest (cs : List Char) : List Char :=
  cs.takeWhile (· != '\n')

/-- The length of the rest of a line comment: the rest of the line, except for one
carriage return at its end. -/
def lineCommentLength (cs : List Char) : Nat :=
  let line := lineRest cs
  if line.getLast? = some '\r' then line.length - 1 else line.length

/-- The length of the rest of a block comment behind its two opening characters, on top
of the characters already counted; nothing if it is not closed. -/
def blockCommentLength? (count : Nat) : List Char → Option Nat
  | '*' :: '/' :: _ => some (count + 2)
  | _ :: cs => blockCommentLength? (count + 1) cs
  | [] => none

/-- A string that has been opened and not yet closed: the number of characters of the
token in front of its opening quote, and the number of braces open in its current
interpolation. With no brace open the reading point is in the string's own text. -/
structure OpenString where
  start : Nat
  braces : Nat
deriving DecidableEq, Repr

/-- The number of characters behind the first quote, the one that closes the outermost
string included, of which `count` have been read. `inner` is the string at the reading
point, `outer` are the strings whose interpolations surround it, innermost first. A
string's own text may not contain a line feed; its interpolations may, and they may
contain further strings. -/
def stringLength (inner : OpenString) (outer : List OpenString) (count : Nat) :
    List Char → Except (LexicalFault × Nat) Nat
  | [] =>
      if inner.braces = 0 then .error (.unterminatedString, inner.start)
      else .error (.unterminatedInterpolation, inner.start)
  | c :: cs =>
      if inner.braces = 0 then
        if c = '"' then
          match outer with
          | [] => .ok (count + 1)
          | next :: outer => stringLength next outer (count + 1) cs
        else if c = '\\' then
          match cs with
          | [] => .error (.unterminatedString, inner.start)
          | _ :: cs => stringLength inner outer (count + 2) cs
        else if c = '$' then
          match cs with
          | '{' :: cs => stringLength { inner with braces := 1 } outer (count + 2) cs
          | cs => stringLength inner outer (count + 1) cs
        else if c = '\n' then .error (.unterminatedString, inner.start)
        else stringLength inner outer (count + 1) cs
      else if c = '{' then
        stringLength { inner with braces := inner.braces + 1 } outer (count + 1) cs
      else if c = '}' then
        stringLength { inner with braces := inner.braces - 1 } outer (count + 1) cs
      else if c = '"' then stringLength ⟨count + 1, 0⟩ (inner :: outer) (count + 1) cs
      else stringLength inner outer (count + 1) cs

/-- The length of the body and the closing line of a heredoc, on top of the characters
already counted. The closing line is the first one that, trimmed, is the anchor; its
blanks belong to the heredoc, its line feed does not. -/
def heredocBodyLength? (anchor : List Char) (count : Nat) (cs : List Char) : Option Nat :=
  if Text.trim (lineRest cs) = anchor then some (count + (lineRest cs).length)
  else
    match h : cs.drop (lineRest cs).length with
    | [] => none
    | _ :: rest => heredocBodyLength? anchor (count + (lineRest cs).length + 1) rest
termination_by cs.length
decreasing_by
  have hlength := congrArg List.length h
  simp only [List.length_drop, List.length_cons] at hlength
  omega

/-- The length of a heredoc behind its two opening characters. -/
def heredocLength (cs : List Char) : Except LexicalFault Nat :=
  let dash := if cs.head? = some '-' then 1 else 0
  let anchor := (cs.drop dash).takeWhile isAnchorChar
  let afterAnchor := cs.drop (dash + anchor.length)
  let carriage := if afterAnchor.head? = some '\r' then 1 else 0
  if anchor = [] then .error .heredocWithoutAnchor
  else
    match afterAnchor.drop carriage with
    | '\n' :: body =>
        match heredocBodyLength? anchor (dash + anchor.length + carriage + 1) body with
        | some count => .ok count
        | none => .error (.heredocNotClosed (String.ofList anchor))
    | _ => .error .heredocAnchorNotAlone

/-- The number of leading digits. -/
def digitsLength (cs : List Char) : Nat :=
  (cs.takeWhile Char.isDigit).length

/-- The length of a fraction: a point and at least one digit. -/
def fractionLength : List Char → Nat
  | '.' :: cs => if digitsLength cs = 0 then 0 else digitsLength cs + 1
  | _ => 0

/-- The length of a sign, if there is one. -/
def signLength : List Char → Nat
  | '+' :: _ => 1
  | '-' :: _ => 1
  | _ => 0

/-- The length of an exponent: its letter, perhaps a sign, and at least one digit. -/
def exponentLength : List Char → Nat
  | c :: cs =>
      if c = 'e' ∨ c = 'E' then
        let digits := digitsLength (cs.drop (signLength cs))
        if digits = 0 then 0 else signLength cs + digits + 1
      else 0
  | [] => 0

/-- The kind and length of a number at its first digit. A hexadecimal number may lack
digits behind its marker. -/
def unsignedNumber (cs : List Char) : LiteralKind × Nat :=
  match cs with
  | '0' :: 'x' :: rest => (.number, (rest.takeWhile isHexDigit).length + 2)
  | '0' :: 'X' :: rest => (.number, (rest.takeWhile isHexDigit).length + 2)
  | _ =>
      let whole := digitsLength cs
      let fraction := fractionLength (cs.drop whole)
      let exponent := exponentLength (cs.drop (whole + fraction))
      (if fraction + exponent = 0 then .number else .float, whole + fraction + exponent)

/-- The kind of a token that is spelled like an identifier. -/
def wordKind (word : List Char) : TokenKind :=
  if word = "true".toList ∨ word = "false".toList then .literal .bool else .identifier

/-- The token that starts with the character `c`: its kind, and how many characters of
`cs` belong to it. -/
def read (c : Char) (cs : List Char) : Except (LexicalFault × Nat) (TokenKind × Nat) :=
  match c, cs with
  | '#', cs => .ok (.comment, lineCommentLength cs)
  | '/', '/' :: _ => .ok (.comment, lineCommentLength cs)
  | '/', '*' :: rest =>
      match blockCommentLength? 1 rest with
      | some count => .ok (.comment, count)
      | none => .error (.unterminatedBlockComment, 0)
  | '"', cs => (stringLength ⟨0, 0⟩ [] 0 cs).map fun count => (.literal .string, count)
  | '<', '<' :: rest =>
      match heredocLength rest with
      | .ok count => .ok (.literal .heredoc, count + 1)
      | .error fault => .error (fault, 0)
  | '=', _ => .ok (.assign, 0)
  | '{', _ => .ok (.openBrace, 0)
  | '}', _ => .ok (.closeBrace, 0)
  | '[', _ => .ok (.openBracket, 0)
  | ']', _ => .ok (.closeBracket, 0)
  | ',', _ => .ok (.comma, 0)
  | c, cs =>
      if c.isDigit then
        let number := unsignedNumber (c :: cs)
        .ok (.literal number.1, number.2 - 1)
      else if c = '-' ∧ (cs.head?.any Char.isDigit) then
        let number := unsignedNumber cs
        .ok (.literal number.1, number.2)
      else if startsIdentifier c then
        let more := cs.takeWhile continuesIdentifier
        .ok (wordKind (c :: more), more.length)
      else .error (.unexpectedCharacter c, 0)

end Lexeme

/-- A lexical fault at its place. -/
structure LexicalError where
  fault : LexicalFault
  position : Position
deriving DecidableEq, Repr

namespace TokenStream

/-- The stream with one more token in front. -/
def cons (token : Token) (stream : TokenStream) : TokenStream :=
  { stream with tokens := token :: stream.tokens }

/-- The tokens of a text that starts at the given position. -/
def scanFrom (position : Position) : List Char → Except LexicalError TokenStream
  | [] => .ok ⟨[], position⟩
  | c :: cs =>
      if Lexeme.isGap c then scanFrom (position.next c) cs
      else
        match Lexeme.read c cs with
        | .error (fault, count) =>
            .error ⟨fault, position.advance ((c :: cs).take count)⟩
        | .ok (kind, count) =>
            let text := c :: cs.take count
            let stop := position.advance text
            (scanFrom stop (cs.drop count)).map
              (cons ⟨kind, String.ofList text, position, stop⟩)
termination_by cs => cs.length

/-- The tokens of a source. -/
def scan (source : String) : Except LexicalError TokenStream :=
  scanFrom .start source.toList

end TokenStream

end HclEditor
