import Mathlib
import HclEditor.Proofs.Storage.Contents
import HclEditor.Proofs.Storage.FileSystem
import HclEditor.Proofs.Storage.Gzip

/-!
# Saving is atomic

A file is staged under a name that nothing has, so that removing it leaves the file system
as it was, and moving it changes only the place that it is moved to. Once the old file has
been copied nothing can fail any more: the directory that the path names is there, and no
directory is at its place.
-/

namespace HclEditor

namespace FileSystem

section Staging

variable {system : FileSystem} {location : Location}

/-- No name in the system is as long as a new one. -/
theorem freshName_notMem {existing : Location × Entry} (hexisting : existing ∈ system.entries) :
    system.freshName ∉ existing.1 := by
  intro hname
  have hnames : system.freshName ∈ system.entries.flatMap Prod.fst :=
    List.mem_flatMap.mpr ⟨existing, hexisting, hname⟩
  have hchars : system.freshName.toList ∈
      (system.entries.flatMap Prod.fst).map String.toList := List.mem_map.mpr ⟨_, hnames, rfl⟩
  have hlength := (List.sublist_flatten_of_mem hchars).length_le
  rw [← List.flatMap_def] at hlength
  have hfresh : system.freshName.toList.length =
      ((system.entries.flatMap Prod.fst).flatMap String.toList).length + 1 := by
    rw [freshName, String.toList_ofList, List.length_cons]
  omega

theorem ne_fresh (system : FileSystem) (directory : Location) :
    ∀ existing ∈ system.entries, existing.1 ≠ directory ++ [system.freshName] := by
  intro existing hexisting heq
  exact freshName_notMem hexisting (heq ▸ List.mem_concat_self)

theorem entry_fresh (system : FileSystem) (directory : Location) :
    system.entry? (directory ++ [system.freshName]) = none := by
  rw [entry_eq_lookup (by simp), List.lookup_eq_none_iff]
  exact fun existing hexisting =>
    bne_iff_ne.mpr (ne_fresh system directory existing hexisting).symm

/-- Removing what has been put at a place where nothing was leaves nothing behind. -/
theorem remove_put_put (hnew : ∀ existing ∈ system.entries, existing.1 ≠ location)
    (first second : Entry) :
    ((system.put location first).put location second).remove location = system := by
  have hnone : (system.entries.any fun existing => existing.1 == location) = false := by
    simpa using hnew
  have hput : system.put location first =
      { system with entries := system.entries ++ [(location, first)] } := if_neg (by simp [hnone])
  have hmap : (system.entries.map fun existing =>
      if existing.1 == location then (location, second) else existing) = system.entries := by
    refine (List.map_congr_left fun existing hexisting => ?_).trans (List.map_id _)
    exact if_neg (by simpa using hnew existing hexisting)
  have hagain : (system.put location first).put location second =
      { system with entries := system.entries ++ [(location, second)] } := by
    rw [hput, put, if_pos (by simp), List.map_append, hmap]
    simp
  have hkept : (system.entries.filter fun existing => !(existing.1 == location)) =
      system.entries := List.filter_eq_self.mpr (by simpa using hnew)
  rw [hagain, remove]
  simp [hkept]

end Staging

section Replacing

variable {system after : FileSystem} {path : String} {contents : Bytes}

theorem createIn_eq_ok {location : Location} {created : FileSystem} :
    system.createIn path = .ok (location, created) ↔
      ∃ directory, system.find path = .ok (directory, .directory) ∧
        location = directory ++ [system.freshName] ∧ created = system.put location (.file []) := by
  simp only [createIn, Except.bind_eq_ok]
  constructor
  · rintro ⟨⟨directory, entry⟩, hfind, hcreated⟩
    cases entry with
    | file => cases hcreated
    | directory =>
        cases hcreated
        exact ⟨directory, hfind, rfl, rfl⟩
  · rintro ⟨directory, hfind, rfl, rfl⟩
    exact ⟨_, hfind, rfl⟩

/-- A file that is put at a new place twice is there, and nothing else changes. -/
theorem writes_put_put {location : Location} (hnew : system.entry? location = none)
    (contents : Bytes) :
    Writes location contents system
      ((system.put location (.file [])).put location (.file contents)) := by
  have hcreated : Writes location [] system _ := writes_put (by simp [hnew]) []
  have hwritten : Writes location contents (system.put location (.file [])) _ :=
    writes_put (by simp [hcreated.written]) contents
  exact ⟨hcreated.free, hwritten.working.trans hcreated.working, hwritten.written,
    fun other hother =>
      (hwritten.elsewhere other hother).trans (hcreated.elsewhere other hother)⟩

theorem move_eq_ok {location : Location} :
    system.move location path = .ok after ↔
      ∃ target entry, system.target path = .ok target ∧ system.entry? location = some entry ∧
        after = (system.remove location).put target entry := by
  simp only [move, Except.bind_eq_ok]
  constructor
  · rintro ⟨target, htarget, hmoved⟩
    split at hmoved
    next entry hentry =>
      cases hmoved
      exact ⟨target, entry, htarget, hentry, rfl⟩
    next => cases hmoved
  · rintro ⟨target, entry, htarget, hentry, rfl⟩
    exact ⟨target, htarget, by rw [hentry]; rfl⟩

/-- A file that is moved from a place where nothing was has been written where it is moved
to. -/
theorem Writes.moved {before written : FileSystem} {staged target : Location}
    (hstaged : Writes staged contents before written) (hnew : before.entry? staged = none)
    (hfree : written.entry? target ≠ some .directory) :
    Writes target contents before ((written.remove staged).put target (.file contents)) where
  free hdirectory := hfree ((hstaged.sameDirectories.2 target).mpr hdirectory)
  working := by
    rw [← hstaged.working, put]
    split <;> rfl
  written := entry_put_self (ne_nil_of_free hfree) _
  elsewhere other hother := by
    rw [entry_put_of_ne hother]
    by_cases hsame : other = staged
    · rw [hsame, entry_remove_self (ne_nil_of_free hstaged.free), hnew]
    · rw [entry_remove_of_ne hsame, hstaged.elsewhere other hsame]

/-- Replacing a file fails with everything as before, or moves the staged file to the place
that the path names. -/
theorem replace_cases {result : Except SaveError Unit}
    (hreplace : system.replace path contents = (after, result)) :
    (after = system ∧ ∃ error, result = .error error) ∨
      result = .ok () ∧ ∃ directory name, system.Names path directory name ∧
        Writes (directory ++ [name]) contents system after := by
  unfold replace at hreplace
  dsimp only at hreplace
  split at hreplace
  next =>
    cases hreplace
    exact .inl ⟨rfl, _, rfl⟩
  next staged created hcreate =>
    obtain ⟨folder, -, rfl, rfl⟩ := createIn_eq_ok.mp hcreate
    split at hreplace
    next =>
      cases hreplace
      exact .inl ⟨remove_put_put (ne_fresh system folder) _ _, _, rfl⟩
    next replaced hmove =>
      cases hreplace
      have hstaged := writes_put_put (entry_fresh system folder) contents
      obtain ⟨target, entry, htarget, hentry, rfl⟩ := move_eq_ok.mp hmove
      obtain ⟨hfree, directory, name, rfl, hnames⟩ := names_of_target htarget
      obtain rfl : .file contents = entry := Option.some.inj (hstaged.written.symm.trans hentry)
      exact .inr ⟨rfl, directory, name, hnames.of_sameDirectories hstaged.sameDirectories.symm,
        hstaged.moved (entry_fresh system folder) hfree⟩

/-- A file can be replaced where the path names a place at which no directory is. -/
theorem exists_replace {directory : Location} {name : String}
    (hnames : system.Names path directory name)
    (hfree : system.entry? (directory ++ [name]) ≠ some .directory) (contents : Bytes) :
    ∃ after, system.replace path contents = (after, .ok ()) := by
  have hstaged := writes_put_put (entry_fresh system directory) contents
  have hcreate := createIn_eq_ok.mpr ⟨directory, hnames.find_parent, rfl, rfl⟩
  have htarget := (hnames.of_sameDirectories hstaged.sameDirectories).target fun hdirectory =>
    hfree ((hstaged.sameDirectories.2 _).mp hdirectory)
  have hmove := move_eq_ok.mpr ⟨_, _, htarget, hstaged.written, rfl⟩
  exact ⟨_, by unfold replace; simp only [hcreate, hmove]; rfl⟩

end Replacing

section Backup

variable {system kept : FileSystem} {path : String}

theorem contains_iff : system.contains path = true ↔
    ∃ location entry, system.find path = .ok (location, entry) := by
  unfold contains
  cases system.find path with
  | error fault => simp [Except.toBool]
  | ok found => exact iff_of_true rfl ⟨found.1, found.2, rfl⟩

theorem read_eq_ok {contents : Bytes} : system.read path = .ok contents ↔
    ∃ location, system.find path = .ok (location, .file contents) := by
  simp only [read, Except.bind_eq_ok]
  constructor
  · rintro ⟨⟨location, entry⟩, hfind, hcontents⟩
    cases entry with
    | file there =>
        cases hcontents
        exact ⟨location, hfind⟩
    | directory => cases hcontents
  · rintro ⟨location, hfind⟩
    exact ⟨_, hfind, rfl⟩

theorem read_of_writes {location : Location} {contents : Bytes}
    (hwrites : Writes location contents system kept) (hlocate : kept.locate path = .ok location) :
    kept.read path = .ok contents :=
  read_eq_ok.mpr ⟨location, find_eq_ok.mpr ⟨hlocate, hwrites.written⟩⟩

theorem copy_eq_ok {target : String} : system.copy path target = .ok kept ↔
    ∃ contents location, system.read path = .ok contents ∧ system.locate target = .ok location ∧
      system.entry? location ≠ some .directory ∧ kept = system.put location (.file contents) := by
  simp only [copy, write, read_eq_ok, Except.bind_eq_ok]
  constructor
  · rintro ⟨⟨source, entry⟩, hfind, hcopied⟩
    cases entry with
    | file contents =>
        obtain ⟨location, hlocate, hwritten⟩ := Except.bind_eq_ok.mp hcopied
        obtain ⟨_, hfree, hput⟩ := Except.bind_eq_ok.mp hwritten
        cases hput
        exact ⟨contents, location, ⟨source, hfind⟩, hlocate, checkFile_eq_ok.mp hfree, rfl⟩
    | directory => cases hcopied
  · rintro ⟨contents, location, ⟨source, hfind⟩, hlocate, hfree, rfl⟩
    refine ⟨_, hfind, Except.bind_eq_ok.mpr ⟨location, hlocate, ?_⟩⟩
    exact Except.bind_eq_ok.mpr ⟨(), checkFile_eq_ok.mpr hfree, rfl⟩

/-- Before a file is replaced it has been copied, or there was none, or copies are not to
be kept. -/
theorem keepBackup_eq_ok {keep : Bool} (hkept : system.keepBackup keep path = .ok kept) :
    (keep && system.contains path) = false ∧ kept = system ∨
      (keep && system.contains path) = true ∧ ∃ contents location,
        system.read path = .ok contents ∧
          system.locate (FilePath.backup path) = .ok location ∧
            Writes location contents system kept := by
  unfold keepBackup at hkept
  split at hkept
  next hkeep =>
    obtain ⟨contents, location, hread, hlocate, hfree, rfl⟩ := copy_eq_ok.mp hkept
    exact .inr ⟨hkeep, contents, location, hread, hlocate, writes_put hfree contents⟩
  next hkeep => exact .inl ⟨Bool.eq_false_iff.mpr hkeep, (Except.ok.inj hkept).symm⟩

theorem exists_keepBackup {keep : Bool}
    (hcopied : keep = true → ∃ kept, system.copy path (FilePath.backup path) = .ok kept) :
    ∃ kept, system.keepBackup keep path = .ok kept := by
  unfold keepBackup
  split
  next hkeep => exact hcopied (Bool.and_eq_true_iff.mp hkeep).1
  next => exact ⟨system, rfl⟩

/-- Once the file at a path has been copied it can be replaced: the path names it. -/
theorem exists_replace_of_copied (hsystem : system.WellFormed) {previous : Bytes}
    (hread : system.read path = .ok previous) {location : Location}
    (hlocate : system.locate (FilePath.backup path) = .ok location)
    (hcopied : Writes location previous system kept) (contents : Bytes) :
    ∃ after, kept.replace path contents = (after, .ok ()) := by
  obtain ⟨place, hfind⟩ := read_eq_ok.mp hread
  obtain ⟨directory, name, rfl, hnames⟩ := names_of_find hsystem hfind
  obtain ⟨rfl, -⟩ := hnames.backup hlocate
  have hfile := (find_eq_ok.mp hfind).2
  have hfree : kept.entry? (directory ++ [name]) ≠ some .directory := by
    rw [hcopied.elsewhere _ (ne_copied directory name), hfile]
    simp
  exact exists_replace (hnames.of_sameDirectories hcopied.sameDirectories) hfree contents

theorem sameDirectories_of_keepBackup {keep : Bool}
    (hkept : system.keepBackup keep path = .ok kept) : SameDirectories system kept := by
  rcases keepBackup_eq_ok hkept with ⟨-, rfl⟩ | ⟨-, contents, location, -, -, hwrites⟩
  · exact ⟨rfl, fun _ => Iff.rfl⟩
  · exact hwrites.sameDirectories

end Backup

/-- What a document that has been saved at a path leaves behind: the path holds its text,
the old file is in the copy if it had to be kept, and everything else is unchanged. -/
structure Saved (codec : Gzip.Codec) (settings : Settings) (path : String)
    (document : Document) (before after : FileSystem) : Prop where
  text : ∃ bytes, after.read path = .ok bytes ∧
    decodeText (isGzipPath path || isGzipData bytes) bytes codec =
      .ok (document.render settings.indentSize)
  copied : settings.createBackup = true → before.contains path = true →
    ∃ previous, before.read path = .ok previous ∧ after.read (FilePath.backup path) = .ok previous
  reloaded : settings.createBackup = true → ∀ old, Document.load before path codec = .ok old →
    Document.load after (FilePath.backup path) codec = .ok old
  elsewhere : ∀ location, before.locate path ≠ .ok location →
    ¬ (settings.createBackup = true ∧ before.contains path = true ∧
      before.locate (FilePath.backup path) = .ok location) →
    after.entry? location = before.entry? location
  working : after.working = before.working

end FileSystem

namespace Document

variable {settings : Settings} {before after : FileSystem} {path : String}
  {document : Document} {codec : Gzip.Codec}

/-- A save stops at a text that is no document or at a copy that cannot be made, with
nothing changed, or else replaces the file. -/
theorem save_cases {result : Except SaveError Unit}
    (hsave : document.save settings before path codec = (after, result)) :
    (after = before ∧ ∃ error, result = .error error) ∨
      ∃ again kept, parse (document.render settings.indentSize) = .ok again ∧
        before.keepBackup settings.createBackup path = .ok kept ∧
        kept.replace path (encodeContents codec path (document.render settings.indentSize)) =
          (after, result) := by
  unfold save at hsave
  dsimp only at hsave
  split at hsave
  next error _ =>
    cases hsave
    exact .inl ⟨rfl, _, rfl⟩
  next again hparse =>
    split at hsave
    next fault _ =>
      cases hsave
      exact .inl ⟨rfl, _, rfl⟩
    next kept hkept => exact .inr ⟨again, kept, hparse, hkept, hsave⟩

/-- A document that cannot be saved leaves the file system as it was. -/
theorem eq_of_save_error (hsystem : before.WellFormed) {error : SaveError}
    (hsave : document.save settings before path codec = (after, .error error)) :
    after = before := by
  rcases save_cases hsave with ⟨hsame, -⟩ | ⟨again, kept, -, hkept, hreplace⟩
  · exact hsame
  · rcases FileSystem.replace_cases hreplace with ⟨rfl, -⟩ | ⟨hdone, -⟩
    · rcases FileSystem.keepBackup_eq_ok hkept with ⟨-, hsame⟩ |
        ⟨-, contents, location, hread, hlocate, hcopied⟩
      · exact hsame
      · obtain ⟨replaced, hreplaced⟩ := FileSystem.exists_replace_of_copied hsystem hread hlocate
          hcopied (encodeContents codec path (document.render settings.indentSize))
        rw [hreplaced] at hreplace
        cases hreplace
    · cases hdone

/-- A document is saved over a file if its text is a document again and the file can be
copied as far as it has to. -/
theorem exists_save (hsystem : before.WellFormed) {previous : Bytes}
    (hread : before.read path = .ok previous)
    (hcopied : settings.createBackup = true →
      ∃ kept, before.copy path (FilePath.backup path) = .ok kept) {again : Document}
    (hparse : parse (document.render settings.indentSize) = .ok again) :
    ∃ after, document.save settings before path codec = (after, .ok ()) := by
  obtain ⟨kept, hkept⟩ := FileSystem.exists_keepBackup hcopied
  have hreplace : ∃ after, kept.replace path
      (encodeContents codec path (document.render settings.indentSize)) = (after, .ok ()) := by
    rcases FileSystem.keepBackup_eq_ok hkept with ⟨-, rfl⟩ |
      ⟨-, contents, location, hread, hlocate, hcopied⟩
    · obtain ⟨location, hfind⟩ := FileSystem.read_eq_ok.mp hread
      obtain ⟨directory, name, rfl, hnames⟩ := FileSystem.names_of_find hsystem hfind
      apply FileSystem.exists_replace hnames
      rw [(FileSystem.find_eq_ok.mp hfind).2]
      simp
    · exact FileSystem.exists_replace_of_copied hsystem hread hlocate hcopied _
  obtain ⟨after, hafter⟩ := hreplace
  refine ⟨after, ?_⟩
  simp only [save, hparse, hkept, hafter]

/-- Over such a file, a save is only refused for the sake of the text. -/
theorem save_eq_ok_iff (hsystem : before.WellFormed) {previous : Bytes}
    (hread : before.read path = .ok previous)
    (hcopied : settings.createBackup = true →
      ∃ kept, before.copy path (FilePath.backup path) = .ok kept) :
    (document.save settings before path codec).2 = .ok () ↔
      ∃ again, parse (document.render settings.indentSize) = .ok again := by
  constructor
  · intro hdone
    have hsave : document.save settings before path codec = (_, .ok ()) := Prod.ext rfl hdone
    rcases save_cases hsave with ⟨-, error, herror⟩ | ⟨again, -, hparse, -⟩
    · cases herror
    · exact ⟨again, hparse⟩
  · rintro ⟨again, hparse⟩
    obtain ⟨after, hsave⟩ := exists_save hsystem hread hcopied hparse
    rw [hsave]

/-- A document that has been saved is at the place that the path names. -/
theorem writes_of_save (hsave : document.save settings before path codec = (after, .ok ())) :
    ∃ kept directory name, before.keepBackup settings.createBackup path = .ok kept ∧
      before.Names path directory name ∧
      FileSystem.Writes (directory ++ [name])
        (encodeContents codec path (document.render settings.indentSize)) kept after := by
  rcases save_cases hsave with ⟨-, error, herror⟩ | ⟨again, kept, -, hkept, hreplace⟩
  · cases herror
  · rcases FileSystem.replace_cases hreplace with ⟨-, error, herror⟩ |
      ⟨-, directory, name, hnames, hwrites⟩
    · cases herror
    · have hsame := FileSystem.sameDirectories_of_keepBackup hkept
      exact ⟨kept, directory, name, hkept, hnames.of_sameDirectories hsame.symm, hwrites⟩

section Saved

variable (hinflates : ∀ data, codec.decompress (codec.compress data) = some data)
  (hsave : document.save settings before path codec = (after, .ok ()))
include hinflates hsave

/-- What has been saved is read as the text that the document has been printed to. -/
theorem text_of_save : ∃ bytes, after.read path = .ok bytes ∧
    decodeText (isGzipPath path || isGzipData bytes) bytes codec =
      .ok (document.render settings.indentSize) := by
  obtain ⟨kept, directory, name, hkept, hnames, hwrites⟩ := writes_of_save hsave
  have hsame := FileSystem.sameDirectories_of_keepBackup hkept
  have hlocate := ((hnames.of_sameDirectories hsame).of_sameDirectories
    hwrites.sameDirectories).locate
  exact ⟨_, FileSystem.read_of_writes hwrites hlocate, decodeText_encodeContents hinflates path _⟩

end Saved

section Copied

variable (hsave : document.save settings before path codec = (after, .ok ()))
include hsave

theorem working_of_save : after.working = before.working := by
  obtain ⟨kept, directory, name, hkept, -, hwrites⟩ := writes_of_save hsave
  exact hwrites.working.trans (FileSystem.sameDirectories_of_keepBackup hkept).1

/-- A copy that had to be kept holds what was at the path. -/
theorem copied_of_save (hkeep : settings.createBackup = true)
    (hcontains : before.contains path = true) :
    ∃ previous, before.read path = .ok previous ∧
      after.read (FilePath.backup path) = .ok previous := by
  obtain ⟨kept, directory, name, hkept, hnames, hwrites⟩ := writes_of_save hsave
  rcases FileSystem.keepBackup_eq_ok hkept with ⟨hnone, -⟩ |
    ⟨-, contents, location, hread, hlocate, hcopied⟩
  · rw [hkeep, hcontains] at hnone
    cases hnone
  · obtain ⟨rfl, hcopy⟩ := hnames.backup hlocate
    have hlater := ((hcopy.of_sameDirectories hcopied.sameDirectories).of_sameDirectories
      hwrites.sameDirectories).locate
    refine ⟨contents, hread, FileSystem.read_eq_ok.mpr ⟨_, FileSystem.find_eq_ok.mpr ⟨hlater, ?_⟩⟩⟩
    rw [hwrites.elsewhere _ (FileSystem.ne_copied directory name).symm, hcopied.written]

/-- A copy that had to be kept is loaded as what was loaded from the path. -/
theorem reloaded_of_save
    (hmagic : ∀ bytes data, codec.decompress bytes = some data →
      Gzip.magic.isPrefixOf bytes = true)
    (hkeep : settings.createBackup = true) {old : Document}
    (hload : load before path codec = .ok old) :
    load after (FilePath.backup path) codec = .ok old := by
  rw [load, Except.bind_eq_ok] at hload
  obtain ⟨bytes, hread, hold⟩ := hload
  rw [Except.mapError_eq_ok] at hread hold
  obtain ⟨location, hfind⟩ := FileSystem.read_eq_ok.mp hread
  obtain ⟨previous, hprevious, hcopy⟩ := copied_of_save hsave hkeep
    (FileSystem.contains_iff.mpr ⟨location, _, hfind⟩)
  obtain rfl : bytes = previous := Except.ok.inj (hread.symm.trans hprevious)
  rw [load, Except.bind_eq_ok]
  refine ⟨bytes, Except.mapError_eq_ok.mpr hcopy, Except.mapError_eq_ok.mpr ?_⟩
  rw [FilePath.isGzipPath_backup]
  exact ofContents_unnamed hmagic hold

/-- Nothing changes except at the path and where a copy had to be kept. -/
theorem elsewhere_of_save {location : Location} (hpath : before.locate path ≠ .ok location)
    (hcopy : ¬ (settings.createBackup = true ∧ before.contains path = true ∧
      before.locate (FilePath.backup path) = .ok location)) :
    after.entry? location = before.entry? location := by
  obtain ⟨kept, directory, name, hkept, hnames, hwrites⟩ := writes_of_save hsave
  rw [hwrites.elsewhere location fun heq => hpath (heq ▸ hnames.locate)]
  rcases FileSystem.keepBackup_eq_ok hkept with ⟨-, rfl⟩ |
    ⟨hkeep, contents, copied, -, hlocate, hcopied⟩
  · rfl
  · rw [Bool.and_eq_true] at hkeep
    exact hcopied.elsewhere location fun heq => hcopy ⟨hkeep.1, hkeep.2, heq ▸ hlocate⟩

end Copied

/-- Saving fails and leaves the file system as it was, or succeeds and leaves the document's
text at the path, the old file in the copy if it had to be kept, and all else unchanged. -/
theorem save_atomic (hinflates : ∀ data, codec.decompress (codec.compress data) = some data)
    (hmagic : ∀ bytes data, codec.decompress bytes = some data →
      Gzip.magic.isPrefixOf bytes = true)
    (hsystem : before.WellFormed) (settings : Settings) (path : String) (document : Document) :
    (∀ after error, document.save settings before path codec = (after, .error error) →
      after = before) ∧
    ∀ after, document.save settings before path codec = (after, .ok ()) →
      FileSystem.Saved codec settings path document before after := by
  refine ⟨fun after error hsave => eq_of_save_error hsystem hsave, fun after hsave => ?_⟩
  obtain ⟨kept, directory, name, hkept, hnames, hwrites⟩ := writes_of_save hsave
  exact {
    text := text_of_save hinflates hsave
    copied := copied_of_save hsave
    reloaded := fun hkeep old hload => reloaded_of_save hsave hmagic hkeep hload
    elsewhere := fun location hpath hcopy => elsewhere_of_save hsave hpath hcopy
    working := hwrites.working.trans (FileSystem.sameDirectories_of_keepBackup hkept).1 }

/-- Another document is saved over gzip data of which a copy is kept. -/
theorem save_atomic_gzip :
    let settings : Settings := { createBackup := true }
    let document : Document :=
      { body := ⟨[⟨[.identifier "b"], .literal ⟨.number, "2"⟩, true, {}, false, none⟩], []⟩ }
    let before : FileSystem := ⟨[(["work"], .directory),
      (["work", "a.gz"], .file (Gzip.compress (Text.encode "a = 1\n")))], ["work"]⟩
    before.WellFormed ∧ ∃ after, document.save settings before "a.gz" = (after, .ok ()) ∧
      FileSystem.Saved {} settings "a.gz" document before after := by
  intro settings document before
  have hsystem : before.WellFormed := by decide +kernel
  have hdone : (document.save settings before "a.gz").2.isOk = true := by decide +kernel
  cases hsave : document.save settings before "a.gz" with
  | mk after result =>
      cases result with
      | error error =>
          rw [hsave] at hdone
          cases hdone
      | ok => exact ⟨hsystem, after, rfl,
          (save_atomic Gzip.decompress_compress (fun _ _ => Gzip.magic_prefix_of_decompress)
            hsystem settings "a.gz" document).2 after hsave⟩

end Document

end HclEditor
