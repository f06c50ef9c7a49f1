import HclEditor.Literal.Content
import HclEditor.Query.Selection
import HclEditor.Storage.Sink

/-!
# Reading and replacing values

Reading a query's values yields one text per addressed item, all of which have to hold a
scalar. Replacing puts a literal into every addressed item. A strict access has to
address something.
-/

namespace HclEditor

/-- Why values cannot be accessed. -/
inductive AccessError where
  | notScalar (keys shape : String)
  | notFound (query : String)
  | outputFull
deriving DecidableEq, Repr

namespace AccessError

/-- The error in words. -/
def message : AccessError → String
  | .notScalar keys shape =>
      "unsupported node type: '" ++ keys ++ "' holds " ++ shape ++
        ", only scalar values can be read"
  | .notFound query => "path not found: " ++ query
  | .outputFull => "failed to write value: " ++ Sink.fullMessage

/-- The error in words, followed by what it is due to. -/
def causes : AccessError → List String
  | .outputFull => [AccessError.outputFull.message, Sink.fullMessage]
  | error => [error.message]

end AccessError

namespace Item

/-- The content of the scalar that the item holds. -/
def content (item : Item) : Except AccessError String :=
  match item.value with
  | .literal literal => .ok literal.content
  | value => .error (.notScalar item.keyPath value.shape)

end Item

namespace Body

/-- The contents of the addressed items, in document order. -/
def get (query : Query) (strict : Bool) (body : Body) : Except AccessError (List String) := do
  let contents ← (body.addressed query).mapM Item.content
  if contents.isEmpty && strict then throw (.notFound query.display)
  return contents

/-- The body with the literal in every addressed item, and the number of those. Whether there
are any is known only when the body has been rebuilt. -/
def set (query : Query) (strict : Bool) (literal : Literal) (body : Body) :
    Body × Except AccessError Nat :=
  let (changed, count) := (body.replace query literal).run 0
  (changed, if count = 0 ∧ strict then .error (.notFound query.display) else .ok count)

end Body

/-- Texts as they are put out, each ended by a line feed. -/
def putLines (texts : List String) : String :=
  texts.foldr (fun text rest => text ++ "\n" ++ rest) ""

namespace Document

/-- Puts out the contents of the addressed items, and tells how many there are. Nothing
is put out before all contents are known. -/
def get (query : Query) (strict : Bool) (document : Document) (sink : Sink) :
    Sink × Except AccessError Nat :=
  match document.body.get query strict with
  | .error error => (sink, .error error)
  | .ok contents =>
      let (sink, complete) := sink.put (Text.encode (putLines contents))
      (sink, if complete then .ok contents.length else .error .outputFull)

/-- Puts the literal into every addressed item, and tells how many there are. The
document still knows its source. -/
def set (query : Query) (strict : Bool) (literal : Literal) (document : Document) :
    Document × Except AccessError Nat :=
  let (body, result) := document.body.set query strict literal
  ({ document with body }, result)

end Document

end HclEditor
