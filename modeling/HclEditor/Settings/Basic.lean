/-!
# Settings

What a user can set once and for all: the indent, the type that values are declared to
have when the command line does not say, whether queries have to address something, and
whether replaced files are kept.
-/

namespace HclEditor

/-- The settings, with the values they have when nothing is set. -/
structure Settings where
  indentSize : Nat := 2
  defaultType : String := "string"
  strict : Bool := false
  createBackup : Bool := false
deriving DecidableEq, Repr

end HclEditor
