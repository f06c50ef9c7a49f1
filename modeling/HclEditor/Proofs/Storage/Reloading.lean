import Mathlib
import HclEditor.Query.Edit
import HclEditor.Proofs.Document.Editing
import HclEditor.Proofs.Document.RoundTrip
import HclEditor.Proofs.Query.ReadBack
import HclEditor.Proofs.Storage.Saving

/-!
# Loading what has been edited and saved

Values are set as they are given, so that a string may end early and go on as another
item. A save only makes sure that what it writes is a document. It is the document that was
edited just if every literal is still one token of its kind, and no comment loses a
carriage return at its end.
-/

namespace HclEditor.Document

/-- The second document is the first one after a text value has been set. -/
def SetsText (before after : Document) : Prop :=
  ∃ query value type count, before.setText query value type = (after, .ok count)

theorem SetsText.edits {before after : Document} (hsets : SetsText before after) :
    Edits (fun _ => True) before after := by
  obtain ⟨query, value, type, count, hset⟩ := hsets
  unfold setText at hset
  split at hset
  next => cases hset
  next => cases hset
  next query literal _ _ =>
    exact ⟨query, false, literal, trivial, (Prod.ext_iff.mp hset).1.symm⟩

section Saved

variable {settings : Settings} {before after : FileSystem} {path : String}
  {document : Document} {codec : Gzip.Codec}
  (hinflates : ∀ data, codec.decompress (codec.compress data) = some data)
  (hsave : document.save settings before path codec = (after, .ok ()))
include hinflates hsave

/-- What has been saved is loaded as the document that its text is. -/
theorem load_of_save : ∃ again, load after path codec = .ok again ∧
    parse (document.render settings.indentSize) = .ok again := by
  obtain ⟨bytes, hread, htext⟩ := text_of_save hinflates hsave
  rcases save_cases hsave with ⟨-, error, herror⟩ | ⟨again, kept, hparse, -, -⟩
  · cases herror
  · refine ⟨again, ?_, hparse⟩
    rw [load, Except.bind_eq_ok]
    refine ⟨bytes, Except.mapError_eq_ok.mpr hread, Except.mapError_eq_ok.mpr ?_⟩
    rw [ofContents, Except.bind_eq_ok]
    exact ⟨_, htext, Except.mapError_eq_ok.mpr hparse⟩

end Saved

section Reloaded

variable {document again : Document} {indent : Nat}
  (hsound : ∀ part ∈ document.body.parts, part.Spelled → part.Sound)
  (halone : ∀ part ∈ document.body.parts, part.HeredocAlone)
  (hparse : parse (document.render indent) = .ok again)
include hsound halone hparse

/-- A document in which all literals are spelled as such is read back. -/
theorem readBack_of_spelled (hspelled : ∀ part ∈ document.body.parts, part.Spelled) :
    document.body.ReadBack again.body := by
  obtain ⟨other, hother, hback⟩ :=
    parse_render (fun part hpart => hsound part hpart (hspelled part hpart)) halone indent
  obtain rfl : again = other := Except.ok.inj (hparse.symm.trans hother)
  exact hback

/-- The document is read back with the same contents exactly if its literals are spelled as
such and its comments do not end with a carriage return. -/
theorem plain_eq_iff_of_parse_render : again.body.plain = document.body.plain ↔
    ∀ part ∈ document.body.parts, part.Spelled ∧ part.Returnless := by
  constructor
  · intro hplain
    -- All literals of a document that was read are spelled, so those of its equal are.
    have hspelled : ∀ part ∈ document.body.parts, part.Spelled := by
      rw [← Body.spelled_plain, ← hplain, Body.spelled_plain]
      exact fun part hpart => (sound_of_parse hparse part hpart).spelled
    have hback := readBack_of_spelled hsound halone hparse hspelled
    have hreturnless := hback.plain_eq_iff.mp hplain
    exact fun part hpart => ⟨hspelled part hpart, hreturnless part hpart⟩
  · intro hparts
    have hback := readBack_of_spelled hsound halone hparse fun part hpart => (hparts part hpart).1
    exact hback.plain_eq fun part hpart => (hparts part hpart).2

end Reloaded

/-- A document that has been read, edited and saved can be loaded again. Unless something
is laid out behind a heredoc on its closing line, it has the same contents exactly if every
literal is one token of its kind when it is scanned alone and no comment ends with a
carriage return; and if the literals are, it answers every query as before. -/
theorem reload_of_edits {codec : Gzip.Codec}
    (hinflates : ∀ data, codec.decompress (codec.compress data) = some data) {source : String}
    {first last : Document} (hparse : parse source = .ok first)
    (hedits : Relation.ReflTransGen SetsText first last) {settings : Settings}
    {before after : FileSystem} {path : String}
    (hsave : last.save settings before path codec = (after, .ok ())) :
    ∃ again, load after path codec = .ok again ∧
      ((∀ part ∈ last.body.parts, part.HeredocAlone) →
        (again.body.plain = last.body.plain ↔
          ∀ part ∈ last.body.parts, part.Spelled ∧ part.Returnless) ∧
        ((∀ part ∈ last.body.parts, part.Spelled) → ∀ query strict sink,
          again.get query strict sink = last.get query strict sink)) := by
  obtain ⟨again, hload, hagain⟩ := load_of_save hinflates hsave
  have hsound := sound_of_edits hparse (hedits.lift id fun _ _ => SetsText.edits)
  refine ⟨again, hload, fun halone => ⟨plain_eq_iff_of_parse_render hsound halone hagain, ?_⟩⟩
  exact fun hspelled => get_eq_of_readBack (readBack_of_spelled hsound halone hagain hspelled)

/-- Setting a text value is an edit if it succeeds. -/
theorem setsText_of_isOk {document : Document} {query value : String} {type : ValueType}
    (hset : (document.setText query value type).2.isOk = true) :
    SetsText document (document.setText query value type).1 := by
  obtain ⟨count, hcount⟩ := Except.exists_of_isOk hset
  exact ⟨query, value, type, count, Prod.ext rfl hcount⟩

theorem save_eq_of_isOk {document : Document} {settings : Settings} {system : FileSystem}
    {path : String} (hsave : (document.save settings system path).2.isOk = true) :
    document.save settings system path = ((document.save settings system path).1, .ok ()) := by
  obtain ⟨_, hdone⟩ := Except.exists_of_isOk hsave
  exact Prod.ext rfl hdone

/-- A float and a string are set and the document is saved as gzip data and loaded again. -/
theorem reload_of_edits_gzip : ∃ first, parse "a = 1 # x\nb = [2]\n" = .ok first ∧
    let last := ((first.setText "a" "1.5e3" .float).1.setText "b" "c" .string).1
    let after := (last.save {} (.empty "work") "f.gz").1
    ∃ again, load after "f.gz" = .ok again ∧ again.body.plain = last.body.plain := by
  obtain ⟨first, hparse, hfirst⟩ := Except.exists_of_map (x := parse "a = 1 # x\nb = [2]\n")
    (p := fun first =>
      let middle := first.setText "a" "1.5e3" .float
      let last := middle.1.setText "b" "c" .string
      middle.2.isOk && last.2.isOk && (last.1.save {} (.empty "work") "f.gz").2.isOk &&
        last.1.body.parts.all fun part =>
          decide (part.HeredocAlone ∧ part.Spelled ∧ part.Returnless)) (by decide +kernel)
  simp only [Bool.and_eq_true, List.all_eq_true, decide_eq_true_eq] at hfirst
  obtain ⟨⟨⟨hmiddle, hlast⟩, hsave⟩, hparts⟩ := hfirst
  have hedits := (Relation.ReflTransGen.single (setsText_of_isOk hmiddle)).tail
    (setsText_of_isOk hlast)
  obtain ⟨again, hload, hagain⟩ := reload_of_edits Gzip.decompress_compress hparse hedits
    (save_eq_of_isOk hsave)
  refine ⟨first, hparse, again, hload, ?_⟩
  exact (hagain fun part hpart => (hparts part hpart).1).1.mpr fun part hpart =>
    (hparts part hpart).2

/-- A string that ends early goes on as another item when it is loaded again. -/
theorem not_forall_plain_eq : ¬ ∀ (source : String) (first last : Document) (settings : Settings)
    (before after : FileSystem) (path : String), parse source = .ok first →
      Relation.ReflTransGen SetsText first last → before.WellFormed →
        last.save settings before path = (after, .ok ()) →
          ∃ again, load after path = .ok again ∧ again.body.plain = last.body.plain := by
  intro hall
  obtain ⟨first, hparse, hfirst⟩ := Except.exists_of_map (x := parse "a = 1\n")
    (p := fun first =>
      let last := first.setText "a" "x\" b = \"y" .string
      let saved := last.1.save {} (.empty "work") "f.hcl"
      last.2.isOk && saved.2.isOk && (load saved.1 "f.hcl").toOption.any fun again =>
        again.body.plain.items.length != last.1.body.plain.items.length) (by decide +kernel)
  simp only [Bool.and_eq_true] at hfirst
  obtain ⟨⟨hlast, hsave⟩, hloaded⟩ := hfirst
  obtain ⟨again, hload, hplain⟩ := hall _ first _ {} (.empty "work") _ "f.hcl" hparse
    (.single (setsText_of_isOk hlast)) (by decide +kernel) (save_eq_of_isOk hsave)
  rw [hload] at hloaded
  simp [Except.toOption, hplain] at hloaded

end HclEditor.Document
