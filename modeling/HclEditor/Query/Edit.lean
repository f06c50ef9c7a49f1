import HclEditor.Literal.ValueType
import HclEditor.Query.Access
import HclEditor.Query.Parse

/-!
# Editing by text

Queries and values come as texts. Both are checked before a document is touched.
-/

namespace HclEditor

/-- Why a text query cannot be answered, or a text value not be set. -/
inductive EditError where
  | query (error : QueryError)
  | value (error : CoercionError)
  | access (error : AccessError)
deriving DecidableEq, Repr

namespace Document

/-- Puts out the contents of the items that a query addresses. -/
def getText (query : String) (document : Document) (sink : Sink) :
    Sink × Except EditError Nat :=
  match Query.parse query with
  | .error error => (sink, .error (.query error))
  | .ok query =>
      let (sink, result) := document.get query false sink
      (sink, result.mapError .access)

/-- Sets the items that a query addresses to a value of a declared type. -/
def setText (query value : String) (type : ValueType) (document : Document) :
    Document × Except EditError Nat :=
  match Query.parse query, Literal.coerce type value with
  | .error error, _ => (document, .error (.query error))
  | .ok _, .error error => (document, .error (.value error))
  | .ok query, .ok literal =>
      let (document, result) := document.set query false literal
      (document, result.mapError .access)

end Document

end HclEditor
