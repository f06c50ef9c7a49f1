import HclEditor.Text.Utf8

/-!
# Outputs

An output takes bytes until it is full. What did fit before it was full stays in it.
-/

namespace HclEditor

/-- An output: how many more bytes it takes, if that is limited, and what it has taken. -/
structure Sink where
  room : Option Nat := none
  taken : Bytes := []
deriving DecidableEq, Repr

namespace Sink

/-- The wording of an output that does not take everything. -/
def fullMessage : String :=
  "failed to write whole buffer"

/-- Puts bytes into the output, and tells whether it has taken all of them. -/
def put (sink : Sink) (bytes : Bytes) : Sink × Bool :=
  match sink.room with
  | none => ({ sink with taken := sink.taken ++ bytes }, true)
  | some room =>
      (⟨some (room - bytes.length), sink.taken ++ bytes.take room⟩,
        decide (bytes.length ≤ room))

end Sink

end HclEditor
