import HclEditor.Document.Layout
import HclEditor.Settings.Basic
import HclEditor.Storage.Load
import HclEditor.Storage.Sink

/-!
# Saving documents

A document is written in canonical layout. A file is only replaced if what would be
written is a document again; the file it replaces is copied first if the settings ask
for that. The new contents are staged beside the file and then moved over it, so that
nothing is left half written.
-/

namespace HclEditor

/-- Why a document cannot be saved to a file. -/
inductive SaveError where
  | malformed (error : ReadError)
  | notBackedUp (path : String) (fault : FileFault)
  | notStaged (directory : String)
  | notReplaced (path : String) (fault : FileFault)
deriving DecidableEq, Repr

namespace SaveError

/-- The error in words, from the general to the particular. -/
def causes : SaveError → List String
  | .malformed error => "Generated invalid HCL - refusing to write it" :: error.causes
  | .notBackedUp path fault =>
      ["Failed to back up " ++ path ++ " to " ++ FilePath.backup path, fault.message]
  | .notStaged directory => ["Failed to create temp file in " ++ directory]
  | .notReplaced path fault => ["Failed to replace " ++ path, fault.message]

end SaveError

/-- The contents of the file at a path that is to hold a text. -/
def encodeContents (codec : Gzip.Codec) (path text : String) : Bytes :=
  if isGzipPath path then codec.compress (Text.encode text) else Text.encode text

namespace FileSystem

/-- Copies the file at a path, if there is one and copies are to be kept. -/
def keepBackup (keep : Bool) (system : FileSystem) (path : String) :
    Except FileFault FileSystem :=
  if keep && system.contains path then system.copy path (FilePath.backup path) else .ok system

/-- Replaces the file at a path: the contents are staged in a new file beside it, which is
then moved over it, or removed if it cannot be moved. -/
def replace (system : FileSystem) (path : String) (contents : Bytes) :
    FileSystem × Except SaveError Unit :=
  let directory := FilePath.parent path
  match system.createIn directory with
  | .error _ => (system, .error (.notStaged directory))
  | .ok (staged, created) =>
      let written := created.put staged (.file contents)
      match written.move staged path with
      | .error fault => (written.remove staged, .error (.notReplaced path fault))
      | .ok replaced => (replaced, .ok ())

end FileSystem

namespace Document

/-- Saves the document to a file. The result is the file system as it is left, and why
the document has not been saved if it has not. -/
def save (settings : Settings) (system : FileSystem) (path : String) (document : Document)
    (codec : Gzip.Codec := {}) : FileSystem × Except SaveError Unit :=
  let text := document.render settings.indentSize
  match parse text with
  | .error error => (system, .error (.malformed error))
  | .ok _ =>
      match system.keepBackup settings.createBackup path with
      | .error fault => (system, .error (.notBackedUp path fault))
      | .ok kept => kept.replace path (encodeContents codec path text)

end Document

/-- The output is too small for a document. -/
structure OutputFull where
deriving DecidableEq, Repr

/-- The error in words, from the general to the particular. -/
def OutputFull.causes (_ : OutputFull) : List String :=
  ["Failed to write HCL", Sink.fullMessage]

namespace Document

/-- Writes the document to an output. -/
def write (indent : Nat) (document : Document) (sink : Sink) : Sink × Except OutputFull Unit :=
  let (sink, complete) := sink.put (Text.encode (document.render indent))
  (sink, if complete then .ok () else .error {})

end Document

end HclEditor
