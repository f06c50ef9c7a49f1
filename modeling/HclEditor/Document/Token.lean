import HclEditor.Document.Basic

/-!
# Tokens

A token is a piece of the source with its kind and with the positions at which it starts
and ends. The scanner's list of tokens is closed by the position of the end of the source.
-/

namespace HclEditor

/-- A place in a text: the byte offset, and the line and column counted from one. Columns
count characters. -/
structure Position where
  offset : Nat
  line : Nat
  column : Nat
deriving DecidableEq, Repr, Inhabited

namespace Position

/-- The beginning of every text. -/
def start : Position :=
  ⟨0, 1, 1⟩

/-- The position behind one more character. -/
def next (position : Position) (c : Char) : Position :=
  if c = '\n' then ⟨position.offset + c.utf8Size, position.line + 1, 1⟩
  else ⟨position.offset + c.utf8Size, position.line, position.column + 1⟩

/-- The position behind a text. -/
def advance (position : Position) (cs : List Char) : Position :=
  cs.foldl next position

/-- Says where something is, in front of what it is. -/
def describe (position : Position) (message : String) : String :=
  s!"line {position.line}, column {position.column}: {message}"

end Position

/-- The kinds of token. The `ending` stands behind the last token of a source. -/
inductive TokenKind where
  | identifier
  | literal (kind : LiteralKind)
  | comment
  | assign
  | openBrace
  | closeBrace
  | openBracket
  | closeBracket
  | comma
  | ending
deriving DecidableEq, Repr, Inhabited

namespace TokenKind

/-- The kind as it is named in messages. -/
def describe : TokenKind → String
  | .identifier => "identifier"
  | .literal .string => "string"
  | .literal .number => "number"
  | .literal .float => "number"
  | .literal .bool => "bool"
  | .literal .heredoc => "heredoc"
  | .comment => "comment"
  | .assign => "'='"
  | .openBrace => "'\x7b'"
  | .closeBrace => "'\x7d'"
  | .openBracket => "'['"
  | .closeBracket => "']'"
  | .comma => "','"
  | .ending => "end of file"

/-- Tokens of these kinds may be keys. -/
def keyKind? : TokenKind → Option KeyKind
  | .identifier => some .identifier
  | .literal .string => some .string
  | _ => none

end TokenKind

/-- A token with its text and its place. -/
structure Token where
  kind : TokenKind
  text : String
  start : Position
  stop : Position
deriving DecidableEq, Repr, Inhabited

/-- The tokens of a source, and the position of its end. -/
structure TokenStream where
  tokens : List Token
  stop : Position
deriving DecidableEq, Repr, Inhabited

namespace TokenStream

/-- The token that stands for the end of the source. -/
def ending (stream : TokenStream) : Token :=
  ⟨.ending, "", stream.stop, stream.stop⟩

/-- All tokens, the ending included. -/
def toList (stream : TokenStream) : List Token :=
  stream.tokens ++ [stream.ending]

end TokenStream

end HclEditor
