/-!
# File paths

A path is a text in which slashes separate components. Some questions about a path are
answered by its text alone: what the directory above it is called, and whether its name
has a given extension. Empty components and dots are passed over, except for a dot at the
front.
-/

namespace HclEditor.FilePath

/-- The components of a path, empty ones included. -/
def components (path : String) : List (List Char) :=
  split path.toList
where
  /-- The pieces between the slashes. -/
  split : List Char → List (List Char)
    | [] => [[]]
    | '/' :: cs => [] :: split cs
    | c :: cs =>
        match split cs with
        | piece :: pieces => (c :: piece) :: pieces
        | [] => [[c]]

/-- A component that stays where it is. -/
def isIdle (component : List Char) : Bool :=
  component.isEmpty || component == ['.']

/-- Drops the idle components from the end, which is the list's front, but not the
path's first component if that is a dot, or the root. -/
def dropIdle : List (List Char) → List (List Char)
  | [] => []
  | [first] => [first]
  | last :: above => if isIdle last then dropIdle above else last :: above

/-- The components from the last to the first, without idle ones behind the last. -/
def fromLast (path : String) : List (List Char) :=
  dropIdle (components path).reverse

/-- The text of components in the order from the last to the first. -/
def join (reversed : List (List Char)) : String :=
  String.ofList (['/'].intercalate reversed.reverse)

/-- The directory that a path is in, as a path; a dot if the path does not name any. -/
def parent (path : String) : String :=
  let above := dropIdle (fromLast path).tail
  if above = [[]] then "/"
  else if above = [] then "."
  else join above

/-- The name of a file in its directory: the last component, unless that goes up. -/
def fileName? (path : String) : Option (List Char) :=
  match fromLast path with
  | [] => none
  | name :: _ => if isIdle name || name == ['.', '.'] then none else some name

/-- The name ends in a dot and the extension, and there is something in front of them. -/
def hasExtension (extension : String) (path : String) : Bool :=
  match fileName? path with
  | none => false
  | some name =>
      let ending := '.' :: extension.toList
      ending.isSuffixOf name && decide (ending.length < name.length)

/-- The path of the copy that is kept of a file before it is replaced. -/
def backup (path : String) : String :=
  path ++ ".bak"

end HclEditor.FilePath
