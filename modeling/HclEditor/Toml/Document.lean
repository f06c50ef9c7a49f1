import HclEditor.Toml.Table

/-!
# TOML documents

A document is a sequence of lines: keys with their values, headers of tables, comments.
It is read as a whole or not at all. How deep values are nested and how many keys are
joined by dots is limited.
-/

namespace HclEditor.Toml

/-- The greatest depth to which arrays and inline tables are nested in each other, and the
greatest number of keys that are joined by dots. -/
def greatestDepth : Nat := 79

/-- The text behind spaces and tabs. -/
def skipSpaces (cs : List Char) : List Char :=
  cs.dropWhile isSpace

/-- The text behind a comment, if there is one. -/
def skipComment : List Char → List Char
  | '#' :: cs => cs.dropWhile isPlain
  | cs => cs

/-- The characters of a bare key. -/
def isKeyChar (c : Char) : Bool :=
  c.isAlphanum || c == '_' || c == '-'

/-- A key between dots: bare, or in quotes. -/
def readSimpleKey (cs : List Char) : Option (String × List Char) :=
  match cs with
  | '"' :: rest => (readBasic rest).map fun (text, rest) => (String.ofList text, rest)
  | '\'' :: rest => (readLiteral rest).map fun (text, rest) => (String.ofList text, rest)
  | _ =>
      let key := cs.takeWhile isKeyChar
      if key.isEmpty then none else some (String.ofList key, cs.drop key.length)

/-- Keys with dots between them and spaces around them, up to a number of keys. -/
def readKeys : Nat → List Char → Option (List String × List Char)
  | 0, _ => none
  | more + 1, cs => do
      let (key, rest) ← readSimpleKey (skipSpaces cs)
      match skipSpaces rest with
      | '.' :: rest =>
          let (keys, rest) ← readKeys more rest
          return (key :: keys, rest)
      | rest => return ([key], rest)

/-- Keys that lead to a table, and the last key. -/
def readPath (cs : List Char) : Option ((List String × String) × List Char) := do
  let (keys, rest) ← readKeys greatestDepth cs
  let key ← keys.getLast?
  return ((keys.dropLast, key), rest)

/-- The text behind spaces, line ends and comments. -/
def skipLines : Nat → List Char → List Char
  | 0, cs => cs
  | fuel + 1, cs =>
      let rest := skipComment (skipSpaces cs)
      match skipLineEnd? rest with
      | some rest => skipLines fuel rest
      | none => rest

/-- The text behind any number of lines. -/
def skipAllLines (cs : List Char) : List Char :=
  skipLines (cs.length + 1) cs

/-- A string as a value, and what follows it. -/
def readText (cs : List Char) : Option (Node × List Char) :=
  (readString? cs).map fun (text, rest) => (.scalar (.string (String.ofList text)), rest)

mutual

/-- A value, and what follows it. Arrays and inline tables may be nested in it up to the
given depth, itself included. -/
def readValue (depth : Nat) : Nat → List Char → Option (Node × List Char)
  | 0, _ => none
  | fuel + 1, cs =>
      match cs, depth with
      | '[' :: _, 0 => none
      | '{' :: _, 0 => none
      | '[' :: rest, depth + 1 => (readElements depth fuel rest).map (Node.closed, ·)
      | '{' :: rest, depth + 1 =>
          match skipSpaces rest with
          | '}' :: rest => some (.closed, rest)
          | rest => (readEntries depth fuel (.empty .header) rest).map (Node.closed, ·)
      | '"' :: _, _ => readText cs
      | '\'' :: _, _ => readText cs
      | _, _ => do
          let length := wordLength cs
          let scalar ← readWord? (cs.take length)
          return (.scalar scalar, cs.drop length)

/-- What follows the elements of an array, each of which is nested up to the given
depth. -/
def readElements (depth : Nat) : Nat → List Char → Option (List Char)
  | 0, _ => none
  | fuel + 1, cs =>
      match skipAllLines cs with
      | ']' :: rest => some rest
      | rest => do
          let (_, rest) ← readValue depth fuel rest
          match skipAllLines rest with
          | ',' :: rest => readElements depth fuel rest
          | ']' :: rest => some rest
          | _ => none

/-- What follows the entries of an inline table that already has some. Their values are
nested up to the given depth. -/
def readEntries (depth : Nat) : Nat → Table → List Char → Option (List Char)
  | 0, _, _ => none
  | fuel + 1, table, cs => do
      let ((path, key), rest) ← readPath cs
      match rest with
      | '=' :: rest =>
          let (node, rest) ← readValue depth fuel (skipSpaces rest)
          let table ← table.define path key node
          match skipSpaces rest with
          | ',' :: rest => readEntries depth fuel table rest
          | '}' :: rest => some rest
          | _ => none
      | _ => none

end

/-- The tables that have been filled, and the path to the one that is being filled. -/
structure Filling where
  root : Table
  current : List String

namespace Filling

/-- Reads a header or a key with its value. -/
def readLine (filling : Filling) (cs : List Char) : Option (Filling × List Char) :=
  match cs with
  | '[' :: '[' :: rest => do
      let ((path, key), rest) ← readPath rest
      match rest with
      | ']' :: ']' :: rest =>
          return (⟨← filling.root.openElement path key, path ++ [key]⟩, rest)
      | _ => none
  | '[' :: rest => do
      let ((path, key), rest) ← readPath rest
      match rest with
      | ']' :: rest => return (⟨← filling.root.openTable path key, path ++ [key]⟩, rest)
      | _ => none
  | _ => do
      let ((path, key), rest) ← readPath cs
      match rest with
      | '=' :: rest =>
          let rest := skipSpaces rest
          let (node, rest) ← readValue greatestDepth (2 * rest.length + 2) rest
          let root ← filling.root.modifyAt false (Table.define path key node) filling.current
          return ({ filling with root }, rest)
      | _ => none

/-- Reads lines up to the end of the text. -/
def readLines : Nat → Filling → List Char → Option Filling
  | 0, _, _ => none
  | fuel + 1, filling, cs =>
      match skipSpaces cs with
      | [] => some filling
      | '#' :: rest => afterLine fuel filling ('#' :: rest)
      | '\n' :: rest => afterLine fuel filling ('\n' :: rest)
      | '\r' :: rest => afterLine fuel filling ('\r' :: rest)
      | rest => do
          let (filling, rest) ← filling.readLine rest
          afterLine fuel filling (skipSpaces rest)
where
  /-- Goes on behind a comment and the end of the line. -/
  afterLine (fuel : Nat) (filling : Filling) (cs : List Char) : Option Filling :=
    match skipComment cs with
    | [] => some filling
    | rest =>
        match skipLineEnd? rest with
        | some rest => readLines fuel filling rest
        | none => none

end Filling

/-- The top-level entries of a document. A byte order mark may precede it. -/
def read? (text : String) : Option (List (String × Node)) := do
  let cs :=
    match text.toList with
    | '\ufeff' :: cs => cs
    | cs => cs
  let filling ← Filling.readLines (cs.length + 1) ⟨.empty .header, []⟩ cs
  return filling.root.entries

end HclEditor.Toml
