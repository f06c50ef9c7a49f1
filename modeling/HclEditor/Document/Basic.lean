/-!
# Documents

A document is a body of items. An item has one or more keys and a value: a scalar
literal, an object body, or a list. Keys, literals and comments keep the text they were
written with, so that whatever is not edited can be written back unchanged.
-/

namespace HclEditor

/-- A range of bytes of the source; the end is exclusive. -/
structure Span where
  start : Nat
  stop : Nat
deriving DecidableEq, Repr, Inhabited

/-- How a key is written: bare, or in double quotes. -/
inductive KeyKind where
  | identifier
  | string
deriving DecidableEq, Repr, Inhabited

/-- A key with its text; the text of a string key includes its quotes. -/
structure Key where
  kind : KeyKind
  text : String
deriving DecidableEq, Repr, Inhabited

namespace Key

/-- A bare key. -/
def identifier (name : String) : Key :=
  ⟨.identifier, name⟩

/-- A string key whose content is the label, taken verbatim. -/
def quoted (label : String) : Key :=
  ⟨.string, "\"" ++ label ++ "\""⟩

end Key

/-- The scalar types. -/
inductive LiteralKind where
  | string
  | number
  | float
  | bool
  | heredoc
deriving DecidableEq, Repr, Inhabited

/-- A scalar with the text it is written with. -/
structure Literal where
  kind : LiteralKind
  text : String
deriving DecidableEq, Repr, Inhabited

/-- The comments of an item or of a list element: the ones above it, in order, and the
one behind it on its last line. -/
structure Comments where
  lead : List String := []
  line : Option String := none
deriving DecidableEq, Repr, Inhabited

mutual

/-- What an item or a list element holds. -/
inductive Value where
  | literal (literal : Literal)
  | object (body : Body)
  | list (body : ListBody)

/-- The items of a document, a block or an object, and the comments after the last. -/
structure Body where
  items : List Item
  dangling : List String

/-- An entry of a body. An assigned item is written with `=`, any other as a block. The
span is absent for items that were not read from a source. -/
structure Item where
  keys : List Key
  value : Value
  assigned : Bool
  comments : Comments
  blankBefore : Bool
  span : Option Span

/-- The elements of a list, and the comments after the last. -/
structure ListBody where
  elements : List Element
  dangling : List String

/-- A value in a list, with its comments. -/
structure Element where
  value : Value
  comments : Comments

end

instance : Inhabited Value := ⟨.literal default⟩
instance : Inhabited Body := ⟨⟨[], []⟩⟩
instance : Inhabited ListBody := ⟨⟨[], []⟩⟩
instance : Inhabited Item := ⟨⟨[], default, true, {}, false, none⟩⟩
instance : Inhabited Element := ⟨⟨default, {}⟩⟩

/-- A document, with the text it was read from when there is one. -/
structure Document where
  body : Body
  source : Option String := none
deriving Inhabited

namespace Value

/-- The value is a scalar. -/
def isLiteral : Value → Bool
  | .literal _ => true
  | _ => false

/-- The value is an object body. -/
def isObject : Value → Bool
  | .object _ => true
  | _ => false

/-- The shape of the value, in words. -/
def shape : Value → String
  | .literal _ => "a literal"
  | .object _ => "an object"
  | .list _ => "a list"

end Value

namespace Body

/-- Neither items nor comments. -/
def isEmpty (body : Body) : Bool :=
  body.items.isEmpty && body.dangling.isEmpty

end Body

namespace ListBody

/-- Neither elements nor comments. -/
def isEmpty (list : ListBody) : Bool :=
  list.elements.isEmpty && list.dangling.isEmpty

/-- The list carries a comment, its elements' own included. -/
def hasComments (list : ListBody) : Bool :=
  !list.dangling.isEmpty ||
    list.elements.any fun element =>
      !element.comments.lead.isEmpty || element.comments.line.isSome

end ListBody

namespace Item

/-- An item that was not read from a source: an object is written as a block, any other
value with `=`. -/
def ofValue (keys : List Key) (value : Value) : Item :=
  { keys, value, assigned := !value.isObject, comments := {}, blankBefore := false,
    span := none }

/-- Gives the item another value and keeps its layout. A block that receives anything but
an object becomes an assignment. -/
def withValue (item : Item) (value : Value) : Item :=
  { item with value, assigned := item.assigned || !value.isObject }

/-- Rebuilds the value and keeps all else. -/
def mapValue (f : Value → Value) (item : Item) : Item :=
  { item with value := f item.value }

/-- The item has exactly one key, with this text. -/
def hasKey (item : Item) (name : String) : Bool :=
  match item.keys with
  | [key] => key.text == name
  | _ => false

/-- The item has exactly two keys, with these texts. -/
def hasKeyPair (item : Item) (name label : String) : Bool :=
  match item.keys with
  | [first, second] => first.text == name && second.text == label
  | _ => false

/-- The item has exactly two keys. -/
def isLabeled (item : Item) : Bool :=
  item.keys.length == 2

/-- The keys as they are written in front of the value. -/
def keyPath (item : Item) : String :=
  " ".intercalate (item.keys.map Key.text)

end Item

namespace Body

/-- The item reached by choosing an item of the body by index, then an item of its object
value, and so on. -/
def item? (body : Body) : List Nat → Option Item
  | [] => none
  | [index] => body.items[index]?
  | index :: path =>
      match body.items[index]? with
      | some ⟨_, .object inner, _, _, _, _⟩ => inner.item? path
      | _ => none

end Body

namespace Document

/-- The document without items, which was read from no source. -/
def empty : Document :=
  { body := ⟨[], []⟩ }

/-- The top-level items. -/
def items (document : Document) : List Item :=
  document.body.items

end Document

end HclEditor
