import HclEditor.Document.Assembly
import HclEditor.Storage.FileSystem
import HclEditor.Storage.Gzip

/-!
# Loading documents

A document is loaded from bytes: they are inflated if they are gzip data, they are UTF-8,
and the text is a document. A file counts as gzip data if its name or its first bytes say
so.
-/

namespace HclEditor

/-- Why bytes hold no document. -/
inductive ContentError where
  | notGzip
  | notText (fault : Text.Utf8Fault)
  | malformed (error : ReadError)
deriving DecidableEq, Repr

/-- Why no document can be loaded from a file. -/
inductive LoadError where
  | unreadable (path : String) (fault : FileFault)
  | content (path : String) (error : ContentError)
deriving DecidableEq, Repr

namespace ContentError

/-- The error in words, from the general to the particular. -/
def causes : ContentError → List String
  | .notGzip => ["Failed to decompress gzip data"]
  | .notText fault => ["Invalid UTF-8 in input", fault.message]
  | .malformed error => error.causes

end ContentError

namespace LoadError

/-- The error in words, from the general to the particular. -/
def causes : LoadError → List String
  | .unreadable path fault => ["Failed to read file " ++ path, fault.message]
  | .content path (.malformed error) => ("Failed to parse " ++ path) :: error.causes
  | .content path error => ("Failed to load " ++ path) :: error.causes

end LoadError

/-- The name of the file says that it is gzip data. -/
def isGzipPath (path : String) : Bool :=
  FilePath.hasExtension "gz" path

/-- The bytes say that they are gzip data. -/
def isGzipData (bytes : Bytes) : Bool :=
  Gzip.magic.isPrefixOf bytes

/-- The text that bytes hold, which are inflated first if they are gzip data. -/
def decodeText (gzipped : Bool) (bytes : Bytes) (codec : Gzip.Codec := {}) :
    Except ContentError String := do
  let plain ←
    if gzipped then
      match codec.decompress bytes with
      | some data => pure data
      | none => throw .notGzip
    else pure bytes
  (Text.decode plain).mapError .notText

namespace Document

/-- The document that bytes hold, in a place that is or is not known to hold gzip data. -/
def ofContents (gzipped : Bool) (bytes : Bytes) (codec : Gzip.Codec := {}) :
    Except ContentError Document := do
  let text ← decodeText (gzipped || isGzipData bytes) bytes codec
  (parse text).mapError .malformed

/-- The document that bytes hold. -/
def ofBytes (bytes : Bytes) (codec : Gzip.Codec := {}) : Except ContentError Document :=
  ofContents false bytes codec

/-- Loads the document that a file holds. -/
def load (system : FileSystem) (path : String) (codec : Gzip.Codec := {}) :
    Except LoadError Document := do
  let bytes ← (system.read path).mapError (.unreadable path)
  (ofContents (isGzipPath path) bytes codec).mapError (.content path)

end Document

end HclEditor
