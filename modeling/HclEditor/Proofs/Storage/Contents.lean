import Mathlib
import HclEditor.Proofs.Outcome
import HclEditor.Proofs.Storage.FilePath
import HclEditor.Proofs.Storage.Utf8
import HclEditor.Storage.Save

/-!
# Contents of saved files

Saving goes by the name of a file and loading by its name or its first bytes. Both come to
the same: no text starts with the magic bytes of gzip data, and if whatever is inflated
starts with them, a copy under another name is read like the file it is of.
-/

namespace HclEditor

/-- No text is taken for gzip data: the second magic byte begins no character. -/
theorem isGzipData_encode (text : String) : isGzipData (Text.encode text) = false := by
  rw [Bool.eq_false_iff]
  intro hmagic
  obtain ⟨rest, hrest⟩ := List.isPrefixOf_iff_prefix.mp hmagic
  have hdecode := Text.decode_encode text
  have hfirst : Text.lead? 0x1f = some { bits := 0x1f, more := 0 } := rfl
  have hsecond : Text.lead? 0x8b = none := rfl
  rw [← hrest] at hdecode
  simp [Text.decode, Gzip.magic, Text.decodeFrom, hfirst, hsecond, Text.readMore, Except.map]
    at hdecode

section Decoded

variable {codec : Gzip.Codec}
  (hinflates : ∀ data, codec.decompress (codec.compress data) = some data)
include hinflates

/-- The contents that are written for a text are read as the text. -/
theorem decodeText_encodeContents (path text : String) :
    decodeText (isGzipPath path || isGzipData (encodeContents codec path text))
      (encodeContents codec path text) codec = .ok text := by
  have hplain : (Text.decode (Text.encode text)).mapError ContentError.notText = .ok text :=
    Except.mapError_eq_ok.mpr (Text.decode_encode text)
  rw [encodeContents]
  split
  next hgzip => simpa [decodeText, hgzip, hinflates] using hplain
  next hgzip => simpa [decodeText, hgzip, isGzipData_encode] using hplain

end Decoded

namespace Document

/-- What is loaded from a file is also loaded if its name does not say that it is gzip data. -/
theorem ofContents_unnamed {codec : Gzip.Codec}
    (hmagic : ∀ bytes data, codec.decompress bytes = some data →
      Gzip.magic.isPrefixOf bytes = true)
    {gzipped : Bool} {bytes : Bytes} {document : Document}
    (hload : ofContents gzipped bytes codec = .ok document) :
    ofContents false bytes codec = .ok document := by
  cases gzipped with
  | false => exact hload
  | true =>
      have hgzip : isGzipData bytes = true := by
        rw [ofContents, Except.bind_eq_ok] at hload
        obtain ⟨text, htext, -⟩ := hload
        rw [decodeText, Bool.true_or, if_pos rfl] at htext
        cases hdata : codec.decompress bytes with
        | none =>
            rw [hdata] at htext
            cases htext
        | some data => exact hmagic bytes data hdata
      rw [← hload, ofContents, ofContents, hgzip, Bool.or_true, Bool.or_true]

end Document

end HclEditor
