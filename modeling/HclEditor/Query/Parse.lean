import HclEditor.Query.Basic
import HclEditor.Query.Token

/-!
# Reading queries

A query is a name; or a name, a dot and a query; or a name, a label in brackets, a dot
and a query. An error shows the query with a caret under the character that no query
can have there.
-/

namespace HclEditor

/-- Why a token of a query cannot stand where it does. -/
inductive QueryFault where
  | expectedDot
  | expectedBracket
  | unexpected (found expected : String)
deriving DecidableEq, Repr

/-- A fault in a query, at a byte offset. -/
structure QueryError where
  query : String
  position : Nat
  fault : QueryFault
deriving DecidableEq, Repr

namespace QueryError

/-- The number of characters in the given number of bytes at the front of a text;
nothing if the bytes end inside a character. -/
def charCount? (bytes : Nat) : List Char → Option Nat
  | [] => if bytes = 0 then some 0 else none
  | c :: cs =>
      if bytes = 0 then some 0
      else if c.utf8Size ≤ bytes then (charCount? (bytes - c.utf8Size) cs).map (· + 1)
      else none

/-- The query, and below it a caret under the faulty character. -/
def pointer (error : QueryError) : String :=
  let position := min error.position error.query.utf8ByteSize
  let column := (charCount? position error.query.toList).getD position
  "  " ++ error.query ++ "\n  " ++ String.ofList (List.replicate column ' ') ++ "^"

/-- What is wrong, and where, in one line. -/
def summary (error : QueryError) : String :=
  match error.fault with
  | .expectedDot => s!"parse error: expecting '.' at character {error.position}"
  | .expectedBracket => s!"parse error: expecting ']' at character {error.position}"
  | .unexpected found expected =>
      "parse error: unexpected " ++ found ++ s!" at character {error.position}, expected " ++
        expected

/-- The error in words, with the query and the caret. -/
def message (error : QueryError) : String :=
  error.summary ++ "\n" ++ error.pointer

/-- A token that is not among the expected ones. -/
def unexpected (query : String) (token : QueryToken) (expected : String) : QueryError :=
  ⟨query, token.start, .unexpected token.describe expected⟩

end QueryError

namespace Query

/-- Reads a query from its tokens. -/
def parseTokens (query : String) : List QueryToken → Except QueryError Query
  | [] => .error (.unexpected query (.ending query) "identifier")
  | name :: tokens =>
      if name.kind ≠ .name then .error (.unexpected query name "identifier")
      else
        match tokens with
        | [] => .ok ⟨[], name.text⟩
        | mark :: tokens =>
            match mark.kind with
            | .dot => (parseTokens query tokens).map (within (.named name.text))
            | .openBracket =>
                match tokens with
                | [] => .error (.unexpected query (.ending query) "identifier")
                | label :: tokens =>
                    if label.kind ≠ .name then .error (.unexpected query label "identifier")
                    else
                      match tokens with
                      | [] => .error ⟨query, query.utf8ByteSize, .expectedBracket⟩
                      | close :: tokens =>
                          if close.kind ≠ .closeBracket then
                            .error ⟨query, close.start, .expectedBracket⟩
                          else
                            match tokens with
                            | [] => .error ⟨query, query.utf8ByteSize, .expectedDot⟩
                            | dot :: tokens =>
                                if dot.kind ≠ .dot then
                                  .error ⟨query, dot.start, .expectedDot⟩
                                else
                                  (parseTokens query tokens).map
                                    (within (.labeled name.text ("\"" ++ label.text ++ "\"")))
            | _ => .error (.unexpected query mark "'.', '[' or end of input")

/-- Reads a query. -/
def parse (query : String) : Except QueryError Query :=
  parseTokens query (tokens query)

end Query

end HclEditor
