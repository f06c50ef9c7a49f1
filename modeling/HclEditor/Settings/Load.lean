import HclEditor.Settings.Basic
import HclEditor.Text.Utf8
import HclEditor.Toml.Document

/-!
# Loading settings

Settings are read from a TOML document. What the document does not set keeps its value,
and keys that are no settings do not matter; but a document that is malformed, or that
sets something to a value of another type, sets nothing at all.
-/

namespace HclEditor

namespace Settings

/-- The value of a key, as far as the key is there; nothing if the value is of another
type. -/
def field {α : Type} (entries : List (String × Toml.Node)) (key : String) (fallback : α)
    (read? : Toml.Scalar → Option α) : Option α :=
  match entries.lookup key with
  | none => some fallback
  | some (.scalar scalar) => read? scalar
  | some _ => none

/-- A natural number. -/
def natural? : Toml.Scalar → Option Nat
  | .integer (.ofNat value) => some value
  | _ => none

/-- A text. -/
def text? : Toml.Scalar → Option String
  | .string text => some text
  | _ => none

/-- A truth value. -/
def truth? : Toml.Scalar → Option Bool
  | .boolean value => some value
  | _ => none

/-- The settings that a document makes; nothing if it makes none. -/
def ofText? (text : String) : Option Settings := do
  let entries ← Toml.read? text
  let defaults : Settings := {}
  return {
    indentSize := ← field entries "indent_size" defaults.indentSize natural?
    defaultType := ← field entries "default_type" defaults.defaultType text?
    strict := ← field entries "strict" defaults.strict truth?
    createBackup := ← field entries "create_backup" defaults.createBackup truth? }

/-- The settings that the contents of a file make, or else the defaults. -/
def ofBytes (bytes : Bytes) : Settings :=
  match Text.decode bytes with
  | .ok text => (ofText? text).getD {}
  | .error _ => {}

/-- The settings in a file, or the defaults if there is no file. -/
def ofFile : Option Bytes → Settings
  | some bytes => ofBytes bytes
  | none => {}

end Settings

end HclEditor
