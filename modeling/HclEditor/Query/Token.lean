/-!
# Tokens of a query

Brackets and dots are tokens of their own, and the longest pieces without them are
names. Every character of the query belongs to exactly one token.
-/

namespace HclEditor

/-- The kinds of token of a query. -/
inductive QueryTokenKind where
  | name
  | openBracket
  | closeBracket
  | dot
  | ending
deriving DecidableEq, Repr

namespace QueryTokenKind

/-- The kind as it is named in messages. -/
def describe : QueryTokenKind → String
  | .name => "identifier"
  | .openBracket => "'['"
  | .closeBracket => "']'"
  | .dot => "'.'"
  | .ending => "end of input"

/-- The characters that are tokens of their own. -/
def ofChar? : Char → Option QueryTokenKind
  | '[' => some .openBracket
  | ']' => some .closeBracket
  | '.' => some .dot
  | _ => none

end QueryTokenKind

/-- A token with the byte offsets at which it starts and ends. Only names have a text. -/
structure QueryToken where
  kind : QueryTokenKind
  text : String
  start : Nat
  stop : Nat
deriving DecidableEq, Repr

namespace QueryToken

/-- The token as it is named in messages. -/
def describe (token : QueryToken) : String :=
  match token.kind with
  | .name => "identifier '" ++ token.text ++ "'"
  | kind => kind.describe

/-- The end of a query. -/
def ending (query : String) : QueryToken :=
  ⟨.ending, "", query.utf8ByteSize, query.utf8ByteSize⟩

end QueryToken

namespace Query

/-- What is known on the way through a query: the tokens that were found, and the name that is
being read, which may have no character yet, with the offset at which it starts. -/
structure Lexing where
  found : List QueryToken := []
  name : String := ""
  start : Nat := 0

namespace Lexing

/-- The offset of the next character. -/
def offset (state : Lexing) : Nat :=
  state.start + state.name.utf8ByteSize

/-- The tokens that were found, with the name that was being read unless it has no character. -/
def close (state : Lexing) : List QueryToken :=
  if state.name.isEmpty then state.found
  else state.found ++ [⟨.name, state.name, state.start, state.offset⟩]

/-- Reads a character: a mark closes the name in front of it, and any other character belongs
to the name. -/
def step (state : Lexing) (c : Char) : Lexing :=
  match QueryTokenKind.ofChar? c with
  | some kind =>
      { found := state.close ++ [⟨kind, "", state.offset, state.offset + 1⟩]
        start := state.offset + 1 }
  | none => { state with name := state.name.push c }

end Lexing

/-- The tokens of a query in front of its end. -/
def tokens (query : String) : List QueryToken :=
  (query.toList.foldl Lexing.step {}).close

/-- All tokens of a query, the ending included. -/
def lex (query : String) : List QueryToken :=
  tokens query ++ [.ending query]

end Query

end HclEditor
