/-!
# Queries

A query names the items it addresses by their key, and the items around them: `a.b` is
an item `b` anywhere inside an item `a`, and `a[x].b` is an item `b` anywhere inside an
item `a "x"`.
-/

namespace HclEditor

/-- A condition on an item that surrounds the addressed ones: its only key, or its two
keys, the second as it is written in the document, with its quotes. -/
inductive Segment where
  | named (key : String)
  | labeled (key label : String)
deriving DecidableEq, Repr

/-- The conditions on the surrounding items, outermost first, and the only key of the
addressed items. -/
structure Query where
  outer : List Segment
  target : String
deriving DecidableEq, Repr

namespace Segment

/-- The text between the quotes, if the text has one at either end. -/
def unquoted (label : String) : String :=
  match label.toList with
  | '"' :: rest =>
      if rest.getLast? = some '"' then String.ofList rest.dropLast else label
  | _ => label

/-- The segment as it is written in a query, the label without its quotes. -/
def display : Segment → String
  | .named key => key
  | .labeled key label => key ++ "[" ++ unquoted label ++ "]"

end Segment

namespace Query

/-- The query for the same items inside one more surrounding item. -/
def within (segment : Segment) (query : Query) : Query :=
  { query with outer := segment :: query.outer }

/-- The number of items that the query names, the addressed one included. -/
def depth (query : Query) : Nat :=
  query.outer.length + 1

/-- The query names no surrounding items. -/
def isTerminal (query : Query) : Bool :=
  query.outer.isEmpty

/-- The query as it is written. -/
def display (query : Query) : String :=
  ".".intercalate (query.outer.map Segment.display ++ [query.target])

end Query

end HclEditor
