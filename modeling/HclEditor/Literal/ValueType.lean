import HclEditor.Document.Basic
import HclEditor.Number.Integer
import HclEditor.Number.Decimal

/-!
# Declared types

A value that is written into a document comes as a text with a declared type. The text
is checked against the type and becomes a literal: strings are put between quotes as
they are, booleans are spelled out, numbers keep their text.
-/

namespace HclEditor

/-- The types that a value can be declared to have. -/
inductive ValueType where
  | string
  | bool
  | int
  | float
deriving DecidableEq, Repr

/-- A tag that names no type. -/
structure UnknownType where
  tag : String
deriving DecidableEq, Repr

namespace ValueType

/-- The types, in the order in which users are told of them. -/
def all : List ValueType :=
  [.string, .bool, .int, .float]

/-- The name of a type. -/
def tag : ValueType → String
  | .string => "string"
  | .bool => "bool"
  | .int => "int"
  | .float => "float"

/-- The type with the given name. -/
def ofTag (tag : String) : Except UnknownType ValueType :=
  match all.find? fun type => type.tag == tag with
  | some type => .ok type
  | none => .error ⟨tag⟩

/-- The kind of literal that is written for a type. -/
def literalKind : ValueType → LiteralKind
  | .string => .string
  | .bool => .bool
  | .int => .number
  | .float => .float

end ValueType

/-- The wording of an unknown type. -/
def UnknownType.message (error : UnknownType) : String :=
  "unknown type '" ++ error.tag ++ "': type should be one of: " ++
    ", ".intercalate (ValueType.all.map ValueType.tag)

/-- Why a text does not have its declared type. -/
inductive CoercionFault where
  | bool
  | int (fault : Number.IntegerFault)
  | float (fault : Number.DecimalFault)
deriving DecidableEq, Repr

/-- A text that does not have its declared type. -/
structure CoercionError where
  text : String
  fault : CoercionFault
deriving DecidableEq, Repr

namespace CoercionFault

/-- The declared type. -/
def type : CoercionFault → ValueType
  | .bool => .bool
  | .int _ => .int
  | .float _ => .float

/-- The fault of the number, if a number was expected. -/
def numberMessage? : CoercionFault → Option String
  | .bool => none
  | .int fault => some fault.message
  | .float fault => some fault.message

/-- What is wrong with the text. -/
def reason (fault : CoercionFault) : String :=
  fault.numberMessage?.getD "expected one of 1, t, true, 0, f, false"

end CoercionFault

namespace CoercionError

/-- The error in words. -/
def message (error : CoercionError) : String :=
  "invalid " ++ error.fault.type.tag ++ " value '" ++ error.text ++ "': " ++
    error.fault.reason

/-- The error in words, followed by the fault of the number it is due to. -/
def causes (error : CoercionError) : List String :=
  error.message :: error.fault.numberMessage?.toList

end CoercionError

namespace Literal

/-- The truth value that a text stands for. -/
def readBool? (text : String) : Option Bool :=
  if text ∈ ["1", "t", "T", "TRUE", "true", "True"] then some true
  else if text ∈ ["0", "f", "F", "FALSE", "false", "False"] then some false
  else none

/-- The literal to write for a text of a declared type. -/
def coerce (type : ValueType) (text : String) : Except CoercionError Literal :=
  match type with
  | .string => .ok ⟨.string, "\"" ++ text ++ "\""⟩
  | .bool =>
      match readBool? text with
      | some true => .ok ⟨.bool, "true"⟩
      | some false => .ok ⟨.bool, "false"⟩
      | none => .error ⟨text, .bool⟩
  | .int =>
      match Number.readInteger 10 text.toList with
      | .ok _ => .ok ⟨.number, text⟩
      | .error fault => .error ⟨text, .int fault⟩
  | .float =>
      match Number.Decimal.readSigned text.toList with
      | .ok _ => .ok ⟨.float, text⟩
      | .error fault => .error ⟨text, .float fault⟩

end Literal

end HclEditor
