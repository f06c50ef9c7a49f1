import HclEditor.Document.Basic

/-!
# Canonical layout

Items stand one below the other, indented by their depth. A blank line separates items
that the source kept apart, and surrounds every item that holds an object. In a run of
items whose `=` stand on neighbouring lines the keys are padded to one width. Keys,
literals and comments are written with their own texts.
-/

namespace HclEditor

namespace Layout

/-- Compact lists have at most this many bytes. -/
def compactWidth : Nat := 80

/-- A number of spaces. -/
def spaces (count : Nat) : String :=
  String.ofList (List.replicate count ' ')

/-- The margin at a depth. -/
def margin (indent depth : Nat) : String :=
  spaces (indent * depth)

/-- The text, padded with spaces to a number of characters. -/
def pad (width : Nat) (text : String) : String :=
  text ++ spaces (width - text.length)

/-- The texts, each on a line of its own behind the margin. -/
def lines (margin : String) : List String → String
  | [] => ""
  | text :: texts => margin ++ text ++ "\n" ++ lines margin texts

/-- A comment behind a value, if there is one. -/
def trailing : Option String → String
  | some comment => " " ++ comment
  | none => ""

/-- An item of a body, with its value as it is laid out. -/
structure Row where
  item : Item
  text : String

namespace Row

/-- The `=` of the item may be aligned with its neighbours': the value is not an object,
and it takes a single line or is a heredoc. -/
def alignable (row : Row) : Bool :=
  match row.item.value with
  | .object _ => false
  | .literal ⟨.heredoc, _⟩ => row.item.assigned
  | _ => row.item.assigned && !row.text.toList.contains '\n'

/-- The row goes on with the run of the row above it. -/
def continuesRun (row : Row) : Bool :=
  row.alignable && !row.item.blankBefore

/-- The number of characters of the item's keys. -/
def keyWidth (row : Row) : Nat :=
  row.item.keyPath.length

/-- The row on its lines, the keys padded to the given width. -/
def layout (margin : String) (width : Nat) (row : Row) : String :=
  lines margin row.item.comments.lead ++ margin ++
    (if row.item.assigned then pad width row.item.keyPath ++ " = "
      else row.item.keyPath ++ " ") ++
    row.text ++ trailing row.item.comments.line

end Row

/-- The largest key width of the rows. -/
def runWidth (rows : List Row) : Nat :=
  (rows.map Row.keyWidth).foldl max 0

/-- The widths with another one from one index up to another. -/
def fill (start stop width : Nat) (widths : List Nat) : List Nat :=
  widths.take start ++ List.replicate (stop - start) width ++ widths.drop stop

/-- What is known on the way through the rows of a body: the widths of the rows above the open
run, with zeros below them, and the index at which the open run starts. -/
structure Aligning where
  widths : List Nat
  start : Nat

/-- Looks at the row at an index, or behind the last one. Unless the row goes on with the open
run, the rows of that run receive their width and another run opens, at the row or below it. -/
def Aligning.step (rows : List Row) (state : Aligning) (index : Nat) : Aligning :=
  if rows[index]?.any Row.continuesRun then state
  else
    { widths :=
        if state.start < index then
          fill state.start index (runWidth (rows.extract state.start index)) state.widths
        else state.widths
      start := if rows[index]?.any Row.alignable then index else index + 1 }

/-- The width to which the keys of each row are padded: in a run of alignable rows the
largest key width of the run, and zero outside runs. -/
def widths (rows : List Row) : List Nat :=
  ((List.range (rows.length + 1)).foldl (Aligning.step rows)
    ⟨List.replicate rows.length 0, 0⟩).widths

/-- What separates two items: a line feed, and a blank line where the source had one or
where one of the two holds an object. -/
def separator (above below : Item) : String :=
  if below.blankBefore || above.value.isObject || below.value.isObject then "\n\n" else "\n"

/-- The rows below a given item, each behind its separator. -/
def rowsBelow (margin : String) (above : Item) : List (Row × Nat) → String
  | [] => ""
  | (row, width) :: rows =>
      separator above row.item ++ row.layout margin width ++
        rowsBelow margin row.item rows

/-- Rows one below the other. -/
def rows (margin : String) : List (Row × Nat) → String
  | [] => ""
  | (row, width) :: below => row.layout margin width ++ rowsBelow margin row.item below

/-- A text with a comment on a line below it, if there is anything above. -/
def addDangling (margin text comment : String) : String :=
  (if text.isEmpty then "" else text ++ "\n") ++ margin ++ comment

/-- The rows of a body with the body's dangling comments below them. -/
def body (margin : String) (entries : List Row) (dangling : List String) : String :=
  dangling.foldl (addDangling margin) (rows margin (entries.zip (widths entries)))

/-- A literal that may stand in a compact list, with its text. -/
def compactText? : Value → Option String
  | .literal ⟨.heredoc, _⟩ => none
  | .literal literal => some literal.text
  | _ => none

/-- The list on a single line, if it may stand there: it carries no comment, holds only
scalars other than heredocs, and is not too long. -/
def compactList? (list : ListBody) : Option String := do
  if list.hasComments then none
  else
    let texts ← list.elements.mapM fun element => compactText? element.value
    let text := "[" ++ ", ".intercalate texts ++ "]"
    if text.utf8ByteSize ≤ compactWidth then some text else none

/-- An element of a list that takes several lines. -/
def element (margin text : String) (comments : Comments) : String :=
  lines margin comments.lead ++ margin ++ text ++ "," ++ trailing comments.line ++ "\n"

end Layout

mutual

/-- A value at a depth; its first line continues the line it starts on. -/
def Value.layout (indent depth : Nat) : Value → String
  | .literal literal => literal.text
  | .object body =>
      if body.isEmpty then "\x7b\x7d"
      else
        "\x7b\n" ++ body.layout indent (depth + 1) ++ "\n" ++
          Layout.margin indent depth ++ "\x7d"
  | .list list =>
      if list.isEmpty then "[]"
      else
        match Layout.compactList? list with
        | some text => text
        | none =>
            "[\n" ++ list.layout indent (depth + 1) ++ Layout.margin indent depth ++ "]"

/-- The items of a body at a depth, and its dangling comments. -/
def Body.layout (indent depth : Nat) : Body → String
  | ⟨items, dangling⟩ =>
      Layout.body (Layout.margin indent depth) (Layout.rowsOf indent depth items) dangling

/-- The items with their values as they are laid out at a depth. -/
def Layout.rowsOf (indent depth : Nat) : List Item → List Layout.Row
  | [] => []
  | item :: items => ⟨item, item.valueLayout indent depth⟩ :: Layout.rowsOf indent depth items

/-- The value of an item at a depth. -/
def Item.valueLayout (indent depth : Nat) : Item → String
  | ⟨_, value, _, _, _, _⟩ => value.layout indent depth

/-- The elements of a list and its dangling comments, one below the other. -/
def ListBody.layout (indent depth : Nat) : ListBody → String
  | ⟨elements, dangling⟩ =>
      Layout.elementsOf indent depth elements ++
        Layout.lines (Layout.margin indent depth) dangling

/-- The elements of a list, each with its comments and a comma. -/
def Layout.elementsOf (indent depth : Nat) : List Element → String
  | [] => ""
  | ⟨value, comments⟩ :: elements =>
      Layout.element (Layout.margin indent depth) (value.layout indent depth) comments ++
        Layout.elementsOf indent depth elements

end

namespace Document

/-- The document in canonical layout, without a line feed at its end. -/
def layout (indent : Nat) (document : Document) : String :=
  document.body.layout indent 0

/-- The document as it is written to files: unless it is empty, a line feed ends it. -/
def render (indent : Nat) (document : Document) : String :=
  let text := document.layout indent
  if text.isEmpty then "" else text ++ "\n"

end Document

end HclEditor
