import HclEditor.Storage.FilePath
import HclEditor.Text.Utf8

/-!
# File systems

A file system holds files with their contents, and directories. One directory is the
working directory, from which relative paths are followed, component by component.
-/

namespace HclEditor

/-- The names on the way down from the root. -/
abbrev Location := List String

/-- What a location holds. -/
inductive Entry where
  | file (contents : Bytes)
  | directory
deriving DecidableEq, Repr

/-- What is at which location, and where the working directory is. The root, which is
always a directory, is not among the entries. -/
structure FileSystem where
  entries : List (Location × Entry)
  working : Location
deriving DecidableEq, Repr

/-- Why an operation on a path fails. -/
inductive FileFault where
  | notFound
  | notDirectory
  | isDirectory
  | busy
  | nameTooLong
  | nulInPath
  | notRegular
deriving DecidableEq, Repr

/-- The wording of a fault. -/
def FileFault.message : FileFault → String
  | .notFound => "No such file or directory (os error 2)"
  | .notDirectory => "Not a directory (os error 20)"
  | .isDirectory => "Is a directory (os error 21)"
  | .busy => "Device or resource busy (os error 16)"
  | .nameTooLong => "File name too long (os error 36)"
  | .nulInPath => "file name contained an unexpected NUL byte"
  | .notRegular => "the source path is neither a regular file nor a symlink to a regular file"

namespace FileSystem

/-- Nothing but an empty working directory with the given name. -/
def empty (working : String) : FileSystem :=
  ⟨[([working], .directory)], [working]⟩

/-- The longest name, in bytes. -/
def longestName : Nat := 255

/-- The longest path, in bytes. -/
def longestPath : Nat := 4095

/-- What is at a location. -/
def entry? (system : FileSystem) (location : Location) : Option Entry :=
  if location = [] then some .directory else system.entries.lookup location

/-- Puts an entry at a location, in place of what is there. -/
def put (system : FileSystem) (location : Location) (entry : Entry) : FileSystem :=
  if system.entries.any fun existing => existing.1 == location then
    { system with
      entries := system.entries.map fun existing =>
        if existing.1 == location then (location, entry) else existing }
  else { system with entries := system.entries ++ [(location, entry)] }

/-- The location is a directory. -/
def enter (system : FileSystem) (location : Location) : Except FileFault Unit :=
  match system.entry? location with
  | some .directory => .ok ()
  | some (.file _) => .error .notDirectory
  | none => .error .notFound

/-- One component further from a directory. The root is its own parent. -/
def step (location : Location) (component : List Char) : Except FileFault Location :=
  if FilePath.isIdle component then .ok location
  else if component = ['.', '.'] then .ok location.dropLast
  else if longestName < (String.ofList component).utf8ByteSize then .error .nameTooLong
  else .ok (location ++ [String.ofList component])

/-- Follows components; all that the way leads through have to be directories. -/
def walk (system : FileSystem) (location : Location) :
    List (List Char) → Except FileFault Location
  | [] => .ok location
  | component :: components => do
      system.enter location
      system.walk (← step location component) components

/-- Some paths are not followed at all. -/
def checkPath (path : String) : Except FileFault Unit :=
  if path.toList.contains '\x00' then .error .nulInPath
  else if longestPath < path.utf8ByteSize then .error .nameTooLong
  else if path.isEmpty then .error .notFound
  else .ok ()

/-- The location at which a path starts: the root, if a slash is in front of it. -/
def origin (system : FileSystem) (path : String) : Location :=
  if path.toList.head? = some '/' then [] else system.working

/-- The location that a path leads to, whether or not something is there. -/
def locate (system : FileSystem) (path : String) : Except FileFault Location := do
  checkPath path
  system.walk (system.origin path) (FilePath.components path)

/-- What a path leads to. -/
def find (system : FileSystem) (path : String) : Except FileFault (Location × Entry) := do
  let location ← system.locate path
  match system.entry? location with
  | some entry => return (location, entry)
  | none => throw .notFound

/-- The path leads to something. -/
def contains (system : FileSystem) (path : String) : Bool :=
  (system.find path).toBool

/-- The contents of a file. -/
def read (system : FileSystem) (path : String) : Except FileFault Bytes := do
  match ← system.find path with
  | (_, .file contents) => return contents
  | (_, .directory) => throw .isDirectory

/-- The location is free or holds a file. -/
def checkFile (system : FileSystem) (location : Location) : Except FileFault Unit :=
  match system.entry? location with
  | some .directory => .error .isDirectory
  | _ => .ok ()

/-- Writes a file, in place of one that is there. -/
def write (system : FileSystem) (path : String) (contents : Bytes) :
    Except FileFault FileSystem := do
  let location ← system.locate path
  system.checkFile location
  return system.put location (.file contents)

/-- Makes a directory where nothing is. -/
def makeDirectory (system : FileSystem) (path : String) : Except FileFault FileSystem := do
  let location ← system.locate path
  return system.put location .directory

/-- Copies a file. -/
def copy (system : FileSystem) (source target : String) : Except FileFault FileSystem := do
  match ← system.find source with
  | (_, .file contents) => system.write target contents
  | (_, .directory) => throw .notRegular

/-- The system without what is at a location. -/
def remove (system : FileSystem) (location : Location) : FileSystem :=
  { system with entries := system.entries.filter fun existing => !(existing.1 == location) }

/-- A name that nothing in the system has, because it is longer than all names. -/
def freshName (system : FileSystem) : String :=
  let names := system.entries.flatMap Prod.fst
  String.ofList ('.' :: names.flatMap String.toList)

/-- Creates an empty file with a new name in a directory, and tells where it is. -/
def createIn (system : FileSystem) (path : String) :
    Except FileFault (Location × FileSystem) := do
  match ← system.find path with
  | (directory, .directory) =>
      let location := directory ++ [system.freshName]
      return (location, system.put location (.file []))
  | (_, .file _) => throw .notDirectory

/-- The location at which a file that is moved to the path ends up. The path has to name
a file: it may neither be a directory nor be written like one. -/
def target (system : FileSystem) (path : String) : Except FileFault Location := do
  checkPath path
  let reversed := (FilePath.components path).reverse
  let named := reversed.dropWhile List.isEmpty
  let directory ← system.walk (system.origin path) named.tail.reverse
  system.enter directory
  match named.head? with
  | none => throw .busy
  | some name =>
      if name == ['.'] || name == ['.', '.'] then throw .busy
      else
        let location ← step directory name
        if named.length < reversed.length then throw .notDirectory
        system.checkFile location
        return location

/-- Moves a file to a path, in place of a file that is there. -/
def move (system : FileSystem) (location : Location) (path : String) :
    Except FileFault FileSystem := do
  let target ← system.target path
  match system.entry? location with
  | some entry => return (system.remove location).put target entry
  | none => throw .notFound

/-- What the working directory holds, by name. -/
def listing (system : FileSystem) : List (String × Entry) :=
  system.entries.filterMap fun (location, entry) =>
    match location.getLast? with
    | some name => if location.dropLast = system.working then some (name, entry) else none
    | none => none

end FileSystem

end HclEditor
