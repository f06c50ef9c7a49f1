import HclEditor.Command.Run
import HclEditor.Settings.Load

/-!
# The program

The outer layer of the program: it looks up what a command can see of the files, runs
the command, and carries out what has changed.
-/

namespace HclEditor

namespace Program

/-- The contents of a file, if it can be read. -/
def contents? (path : String) : IO (Option Bytes) := do
  try
    return some (← IO.FS.readBinFile path).toList
  catch _ => return none

/-- What is at a path. -/
def entry? (path : String) : IO (Option Entry) := do
  try
    if ← (← IO.FS.realPath path).isDir then return some .directory
    return (← contents? path).map .file
  catch _ => return none

/-- Notes what is at a path. -/
def look (system : FileSystem) (path : String) : IO FileSystem := do
  match system.locate path, ← entry? path with
  | .ok location, some entry => return system.put location entry
  | _, _ => return system

/-- The paths on the way to a path, itself included. -/
def wayTo (path : String) : List String :=
  let components := FilePath.components path
  (List.range components.length).map fun count =>
    FilePath.join (components.take (count + 1)).reverse

/-- The names of the directories on the way to the working directory. -/
def workingLocation : IO Location := do
  let names := FilePath.components (← IO.FS.realPath ".").toString
  return names.tail.map String.ofList

/-- What the commands can see of the files: the way to a path, and its backup. -/
def filesAround (file : Option String) : IO FileSystem := do
  let working ← workingLocation
  let directories := (List.range working.length).map fun count =>
    (working.take (count + 1), Entry.directory)
  let found : FileSystem := ⟨directories, working⟩
  match file with
  | none => return found
  | some path => (wayTo path ++ [FilePath.backup path]).foldlM look found

/-- Writes a file beside its place and moves it there. -/
def replace (location : Location) (bytes : Bytes) : IO Unit := do
  let path := "/" ++ "/".intercalate location
  let staged := path ++ ".staged"
  IO.FS.writeBinFile staged ⟨bytes.toArray⟩
  IO.FS.rename staged path

/-- Carries out what has changed. -/
def carryOut (before after : FileSystem) : IO Unit :=
  after.entries.forM fun (location, entry) =>
    match entry with
    | .file bytes =>
        if before.entry? location = some entry then pure () else replace location bytes
    | .directory => pure ()

/-- The settings of the user. -/
def settings : IO Settings := do
  match ← IO.getEnv "HOME" with
  | some home => return .ofFile (← contents? (home ++ "/.config/hclquill/config.toml"))
  | none => return {}

/-- The file that a command line names. -/
def namedFile? (words : List String) : Option String :=
  match Command.ofWords words with
  | .ok (.get _ file _) => file
  | .ok (.set _ _ file _ _ _) => file
  | .ok (.fmt file _) => file
  | .error _ => none

/-- The standard input, which is read if a command names no file. -/
def input (words : List String) : IO Bytes := do
  match Command.ofWords words, namedFile? words with
  | .ok _, none => return (← (← IO.getStdin).readBinToEnd).toList
  | _, _ => return []

end Program

end HclEditor

open HclEditor in
/-- Runs the program on the words of its command line. -/
def main (words : List String) : IO UInt32 := do
  let files ← Program.filesAround (Program.namedFile? words)
  let outcome := Outcome.ofWords ⟨← Program.input words, files, ← Program.settings⟩ words
  Program.carryOut files outcome.files
  (← IO.getStdout).write ⟨outcome.taken.toArray⟩
  unless outcome.report.isEmpty do IO.eprintln outcome.report
  return UInt32.ofNat outcome.code
