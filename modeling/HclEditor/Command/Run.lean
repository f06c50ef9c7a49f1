import HclEditor.Command.Arguments
import HclEditor.Query.Edit
import HclEditor.Storage.Save

/-!
# Running commands

A command reads a document from a file or from the standard input. It puts out the values
that a query addresses, or the document in canonical layout, perhaps after replacing
values; or it saves the document to the file it was read from. Each part of a command may
fail, and leaves the output and the files to the next part as it has changed them.
-/

namespace HclEditor

/-- Why a command fails. -/
inductive CommandError where
  | noFile
  | type (error : UnknownType)
  | query (error : QueryError)
  | value (error : CoercionError)
  | input (error : ContentError)
  | load (error : LoadError)
  | access (error : AccessError)
  | output (error : OutputFull)
  | save (error : SaveError)
deriving DecidableEq, Repr

namespace CommandError

/-- The error in words, from the general to the particular. -/
def causes : CommandError → List String
  | .noFile => ["--in-place needs an HCL_FILE; stdin cannot be rewritten"]
  | .type error => [error.message]
  | .query error => [error.message]
  | .value error => error.causes
  | .input error => "Failed to load HCL from stdin" :: error.causes
  | .load error => error.causes
  | .access error => error.causes
  | .output error => error.causes
  | .save error => error.causes

/-- The causes below the first, numbered from the given number on. -/
def numbered (number : Nat) : List String → List String
  | [] => []
  | cause :: causes => (s!"    {number}: " ++ cause) :: numbered (number + 1) causes

/-- The report of the error: what has failed, and below it what it is due to. -/
def report (error : CommandError) : String :=
  match error.causes with
  | [] => "Error: "
  | [summary] => "Error: " ++ summary
  | [summary, cause] => "Error: " ++ summary ++ "\n\nCaused by:\n    " ++ cause
  | summary :: causes =>
      "Error: " ++ summary ++ "\n\nCaused by:\n" ++ "\n".intercalate (numbered 0 causes)

end CommandError

/-- What a command finds: the standard input, the files, and the settings. -/
structure Surroundings where
  input : Bytes
  files : FileSystem
  settings : Settings

/-- What a command works on: the standard output, and the files. -/
structure World where
  output : Sink := {}
  files : FileSystem

/-- Actions that commands are made of. They may change what the command works on, and may
fail. -/
abbrev CommandM := ExceptT CommandError (StateM World)

namespace CommandM

variable {ε α : Type}

/-- How the action ends in a world, and the world that it leaves. -/
def runIn (action : CommandM α) (world : World) : Except CommandError α × World :=
  (ExceptT.run action).run world

/-- Goes on if a check has succeeded. -/
def check (cause : ε → CommandError) (result : Except ε α) : CommandM α :=
  ExceptT.mk (pure (result.mapError cause))

/-- Looks into the files. -/
def ofFiles (cause : ε → CommandError) (read : FileSystem → Except ε α) : CommandM α := do
  let world ← get
  check cause (read world.files)

/-- Works on the output. -/
def onOutput (cause : ε → CommandError) (put : Sink → Sink × Except ε α) : CommandM α := do
  let world ← get
  let (output, result) := put world.output
  set { world with output }
  check cause result

/-- Works on the files. -/
def onFiles (cause : ε → CommandError) (change : FileSystem → FileSystem × Except ε α) :
    CommandM α := do
  let world ← get
  let (files, result) := change world.files
  set { world with files }
  check cause result

end CommandM

namespace Command

open CommandM

/-- The document in the file, or in the standard input if no file is named. -/
def loadDocument (input : Bytes) (codec : Gzip.Codec) (file : Option String) :
    CommandM Document :=
  match file with
  | some path => ofFiles .load fun files => Document.load files path codec
  | none => check .input (Document.ofBytes input codec)

/-- Saves the document in place, or puts it out. -/
def emitDocument (settings : Settings) (codec : Gzip.Codec) (file : Option String)
    (inPlace : Bool) (document : Document) : CommandM Unit :=
  match inPlace, file with
  | true, some path => onFiles .save fun files => document.save settings files path codec
  | _, _ => onOutput .output (document.write settings.indentSize)

/-- Only a file can be changed in place. -/
def requireFile (file : Option String) (inPlace : Bool) : CommandM Unit :=
  if inPlace && file.isNone then throw .noFile else pure ()

/-- Does a command. Its arguments are checked before any input is read. -/
def perform (input : Bytes) (settings : Settings) (codec : Gzip.Codec) : Command → CommandM Unit
  | .get query file strict => do
      let query ← check .query (Query.parse query)
      let document ← loadDocument input codec file
      let _ ← onOutput .access (document.get query (strict || settings.strict))
  | .set query value file type inPlace strict => do
      requireFile file inPlace
      let type ← check .type (ValueType.ofTag (type.getD settings.defaultType))
      let query ← check .query (Query.parse query)
      let literal ← check .value (Literal.coerce type value)
      let document ← loadDocument input codec file
      let (changed, result) := document.set query (strict || settings.strict) literal
      let _ ← check .access result
      emitDocument settings codec file inPlace changed
  | .fmt file inPlace => do
      requireFile file inPlace
      let document ← loadDocument input codec file
      emitDocument settings codec file inPlace document

/-- How a command ends, and the output and the files that it leaves. -/
def run (found : Surroundings) (codec : Gzip.Codec) (command : Command) :
    Except CommandError Unit × World :=
  (command.perform found.input found.settings codec).runIn { files := found.files }

end Command

/-- What a run of the program shows: its exit code, what its output has taken, its report of an
error, and the files. -/
structure Outcome where
  code : Nat
  taken : Bytes
  report : String
  files : FileSystem
deriving DecidableEq, Repr

namespace Outcome

/-- The output as a text. -/
def output (outcome : Outcome) : String :=
  (Text.decode outcome.taken).toOption.getD ""

/-- The name and version of the program. -/
def versionLine : String :=
  "hclquill 0.1.0\n"

/-- How the program is called. -/
def usage : String :=
  "Usage: hclquill [-v] <get|set|fmt> ...\n\n" ++
    "  get QUERY_PATH [HCL_FILE] [--strict]\n" ++
    "  set QUERY_PATH VALUE [HCL_FILE] [-t TYPE] [-i] [--strict]\n" ++
    "  fmt [HCL_FILE] [-i]\n"

/-- What is shown when a command has ended. -/
def ofEnd (result : Except CommandError Unit) (world : World) : Outcome :=
  match result with
  | .ok _ => ⟨0, world.output.taken, "", world.files⟩
  | .error error => ⟨1, world.output.taken, error.report, world.files⟩

/-- Runs the program on the words of its command line. -/
def ofWords (found : Surroundings) (words : List String) (codec : Gzip.Codec := {}) : Outcome :=
  match Command.ofWords words with
  | .error .help => ⟨0, Text.encode usage, "", found.files⟩
  | .error .version => ⟨0, Text.encode versionLine, "", found.files⟩
  | .error (.error error) =>
      ⟨2, [], "error: " ++ error.message ++ "\n\n" ++ usage, found.files⟩
  | .ok command =>
      let (result, world) := command.run found codec
      ofEnd result world

end Outcome

end HclEditor
