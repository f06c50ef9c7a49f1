import Mathlib
import HclEditor.Proofs.Outcome
import HclEditor.Proofs.Storage.FilePath

/-!
# Locations of paths

Which location a path leads to depends on the directories alone, so that writing files
changes no path. A path that leads to a file names it in a directory: the path's parent
leads to that directory, and the path of the copy names another file in it.
-/

namespace HclEditor.FileSystem

open FilePath

/-- Whatever is anywhere is in a directory. -/
def WellFormed (system : FileSystem) : Prop :=
  ∀ location entry, system.entry? location = some entry →
    system.entry? location.dropLast = some .directory

section Entries

variable {entries : List (Location × Entry)} {system : FileSystem} {location other : Location}

@[simp] theorem entry_nil (system : FileSystem) : system.entry? [] = some .directory :=
  if_pos rfl

theorem entry_eq_lookup (hlocation : location ≠ []) :
    system.entry? location = system.entries.lookup location :=
  if_neg hlocation

theorem ne_nil_of_free (hfree : system.entry? location ≠ some .directory) : location ≠ [] :=
  fun hroot => hfree (hroot ▸ entry_nil system)

theorem lookup_cons_of_ne {there : Location × Entry} (hother : other ≠ there.1) :
    (there :: entries).lookup other = entries.lookup other := by
  rw [List.lookup_cons, beq_false_of_ne hother]

theorem lookup_replaced_self (entry : Entry)
    (hthere : entries.any (fun existing => existing.1 == location) = true) :
    (entries.map fun existing =>
      if existing.1 == location then (location, entry) else existing).lookup location =
        some entry := by
  induction entries with
  | nil => cases hthere
  | cons existing entries ih =>
      rw [List.map_cons]
      split
      · exact List.lookup_cons_self
      next hne =>
        rw [List.any_cons, Bool.eq_false_iff.mpr hne, Bool.false_or] at hthere
        rw [lookup_cons_of_ne fun heq => hne (by rw [heq, beq_self_eq_true]), ih hthere]

theorem lookup_replaced_of_ne (entry : Entry) (hother : other ≠ location) :
    (entries.map fun existing =>
      if existing.1 == location then (location, entry) else existing).lookup other =
        entries.lookup other := by
  induction entries with
  | nil => rfl
  | cons existing entries ih =>
      rw [List.map_cons]
      split
      next heq =>
        rw [lookup_cons_of_ne hother, ih, lookup_cons_of_ne (beq_iff_eq.mp heq ▸ hother)]
      next => rw [List.lookup_cons, List.lookup_cons, ih]

theorem entry_put_self (hlocation : location ≠ []) (entry : Entry) :
    FileSystem.entry? (system.put location entry) location = some entry := by
  rw [entry_eq_lookup hlocation, put]
  split
  next hthere => exact lookup_replaced_self entry hthere
  next hthere =>
    rw [Bool.not_eq_true, List.any_eq_false] at hthere
    rw [List.lookup_append, List.lookup_eq_none_iff.mpr fun existing hexisting => ?_,
      List.lookup_cons_self, Option.none_or]
    simpa using Ne.symm (by simpa using hthere existing hexisting)

theorem entry_put_of_ne (hother : other ≠ location) (entry : Entry) :
    FileSystem.entry? (system.put location entry) other = system.entry? other := by
  by_cases hroot : other = []
  · rw [hroot, entry_nil, entry_nil]
  · rw [entry_eq_lookup hroot, entry_eq_lookup hroot, put]
    split
    · exact lookup_replaced_of_ne entry hother
    · rw [List.lookup_append, lookup_cons_of_ne hother, List.lookup_nil, Option.or_none]

theorem entry_remove_of_ne (hother : other ≠ location) :
    FileSystem.entry? (system.remove location) other = system.entry? other := by
  by_cases hroot : other = []
  · rw [hroot, entry_nil, entry_nil]
  · rw [entry_eq_lookup hroot, entry_eq_lookup hroot, remove]
    induction system.entries with
    | nil => rfl
    | cons existing entries ih =>
        rw [List.filter_cons]
        split
        · rw [List.lookup_cons, List.lookup_cons, ih]
        next hremoved =>
          have hhere : existing.1 = location := by simpa using hremoved
          rw [ih, lookup_cons_of_ne (hhere ▸ hother)]

theorem entry_remove_self (hlocation : location ≠ []) :
    FileSystem.entry? (system.remove location) location = none := by
  rw [entry_eq_lookup hlocation, List.lookup_eq_none_iff]
  intro existing hexisting
  have hkept := (List.mem_filter.mp hexisting).2
  exact bne_iff_ne.mpr (Ne.symm (by simpa using hkept))

end Entries

theorem wellFormed_iff {system : FileSystem} : system.WellFormed ↔
    ∀ existing ∈ system.entries, system.entry? existing.1.dropLast = some .directory := by
  constructor
  · intro hsystem existing hexisting
    cases hentry : system.entry? existing.1 with
    | some entry => exact hsystem _ _ hentry
    | none =>
        have hlocation : existing.1 ≠ [] := fun hroot => by simp [hroot] at hentry
        rw [entry_eq_lookup hlocation, List.lookup_eq_none_iff] at hentry
        simpa using hentry existing hexisting
  · intro hparents location entry hentry
    by_cases hlocation : location = []
    · rw [hlocation, List.dropLast_nil, entry_nil]
    · rw [entry_eq_lookup hlocation, List.lookup_eq_some_iff] at hentry
      obtain ⟨above, below, hentries, -⟩ := hentry
      exact hparents (location, entry) (by simp [hentries])

instance (system : FileSystem) : Decidable system.WellFormed :=
  decidable_of_iff _ wellFormed_iff.symm

/-- The second system holds a file with the contents at a location that was not a
directory's, and is the first one everywhere else. -/
structure Writes (location : Location) (contents : Bytes) (before after : FileSystem) :
    Prop where
  free : before.entry? location ≠ some .directory
  working : after.working = before.working
  written : after.entry? location = some (.file contents)
  elsewhere : ∀ other, other ≠ location → after.entry? other = before.entry? other

theorem writes_put {system : FileSystem} {location : Location}
    (hfree : system.entry? location ≠ some .directory) (contents : Bytes) :
    Writes location contents system (system.put location (.file contents)) where
  free := hfree
  working := by rw [put]; split <;> rfl
  written := entry_put_self (ne_nil_of_free hfree) _
  elsewhere _ hother := entry_put_of_ne hother _

/-- The two systems have the same directories. -/
def SameDirectories (before after : FileSystem) : Prop :=
  after.working = before.working ∧
    ∀ location, after.entry? location = some .directory ↔ before.entry? location = some .directory

theorem SameDirectories.symm {before after : FileSystem} (hsame : SameDirectories before after) :
    SameDirectories after before :=
  ⟨hsame.1.symm, fun location => (hsame.2 location).symm⟩

theorem Writes.sameDirectories {location : Location} {contents : Bytes}
    {before after : FileSystem} (hwrites : Writes location contents before after) :
    SameDirectories before after := by
  refine ⟨hwrites.working, fun other => ?_⟩
  by_cases hother : other = location
  · rw [hother, hwrites.written]
    exact iff_of_false (fun hfile => by cases hfile) hwrites.free
  · rw [hwrites.elsewhere other hother]

section Walks

variable {system before after : FileSystem} {location : Location}

theorem enter_eq_ok :
    system.enter location = .ok () ↔ system.entry? location = some .directory := by
  unfold enter
  split <;> simp_all

theorem checkFile_eq_ok :
    system.checkFile location = .ok () ↔ system.entry? location ≠ some .directory := by
  unfold checkFile
  split <;> simp_all

theorem walk_append (first second : List (List Char)) :
    system.walk location (first ++ second) =
      system.walk location first >>= fun next => system.walk next second := by
  induction first generalizing location with
  | nil => rfl
  | cons component first ih =>
      rw [List.cons_append, walk, walk]
      simp only [ih]
      cases system.enter location with
      | error fault => rfl
      | ok => cases step location component <;> rfl

theorem walk_cons_eq_ok {component : List Char} {components : List (List Char)}
    {next : Location} :
    system.walk location (component :: components) = .ok next ↔
      system.entry? location = some .directory ∧
        ∃ inner, step location component = .ok inner ∧ system.walk inner components = .ok next := by
  simp only [walk, Except.bind_eq_ok, ← enter_eq_ok, Unique.exists_iff]

/-- A walk that ends with a component goes there from a directory. -/
theorem walk_concat_eq_ok {above : List (List Char)} {last : List Char} {next : Location} :
    system.walk location (above ++ [last]) = .ok next ↔
      ∃ directory, system.walk location above = .ok directory ∧
        system.entry? directory = some .directory ∧ step directory last = .ok next := by
  rw [walk_append, Except.bind_eq_ok]
  simp only [walk_cons_eq_ok, walk.eq_1, Except.ok.injEq, exists_eq_right]

theorem walk_of_sameDirectories (hsame : SameDirectories before after)
    {components : List (List Char)} {next : Location}
    (hwalk : before.walk location components = .ok next) :
    after.walk location components = .ok next := by
  induction components generalizing location with
  | nil => exact hwalk
  | cons component components ih =>
      obtain ⟨hdirectory, inner, hstep, hwalk⟩ := walk_cons_eq_ok.mp hwalk
      exact walk_cons_eq_ok.mpr ⟨(hsame.2 location).mpr hdirectory, inner, hstep, ih hwalk⟩

theorem walk_idle {components : List (List Char)} {next : Location}
    (hidle : ∀ component ∈ components, isIdle component = true)
    (hwalk : system.walk location components = .ok next) : next = location := by
  induction components with
  | nil => exact (Except.ok.inj hwalk).symm
  | cons component components ih =>
      obtain ⟨hcomponent, hothers⟩ := List.forall_mem_cons.mp hidle
      obtain ⟨-, inner, hstep, hwalk⟩ := walk_cons_eq_ok.mp hwalk
      rw [step, if_pos hcomponent] at hstep
      exact ih hothers (Except.ok.inj hstep ▸ hwalk)

end Walks

/-- The path leads to a directory and ends with a name in it. -/
structure Names (system : FileSystem) (path : String) (directory : Location) (name : String) :
    Prop where
  checked : checkPath path = .ok ()
  above : ∃ above, components path = above ++ [name.toList] ∧
    system.walk (system.origin path) above = .ok directory
  entered : system.entry? directory = some .directory
  moves : isIdle name.toList = false
  down : name.toList ≠ ['.', '.']
  short : name.utf8ByteSize ≤ longestName

theorem checkPath_eq_ok {path : String} :
    checkPath path = .ok () ↔
      '\x00' ∉ path.toList ∧ path.utf8ByteSize ≤ longestPath ∧ path ≠ "" := by
  unfold checkPath
  repeat' split
  all_goals simp_all [String.isEmpty_iff]

/-- What is in front of a path that can be followed can be followed, from the same place. -/
theorem checkPath_of_append {front rest : String} (hfront : front ≠ "")
    (hchecked : checkPath (front ++ rest) = .ok ()) : checkPath front = .ok () := by
  obtain ⟨hnul, hlong, -⟩ := checkPath_eq_ok.mp hchecked
  rw [String.toList_append, List.mem_append, not_or] at hnul
  rw [String.utf8ByteSize_append] at hlong
  exact checkPath_eq_ok.mpr ⟨hnul.1, by omega, hfront⟩

theorem origin_append (system : FileSystem) {front : String} (hfront : front ≠ "")
    (rest : String) : system.origin (front ++ rest) = system.origin front := by
  have hchars : front.toList ≠ [] := fun hempty => hfront (String.toList_eq_nil_iff.mp hempty)
  rw [origin, origin, String.toList_append, List.head?_append_of_ne_nil _ hchars]

theorem locate_eq_ok {system : FileSystem} {path : String} {location : Location} :
    system.locate path = .ok location ↔
      checkPath path = .ok () ∧
        system.walk (system.origin path) (components path) = .ok location := by
  simp only [locate, Except.bind_eq_ok, Unique.exists_iff]

theorem find_eq_ok {system : FileSystem} {path : String} {location : Location} {entry : Entry} :
    system.find path = .ok (location, entry) ↔
      system.locate path = .ok location ∧ system.entry? location = some entry := by
  simp only [find, Except.bind_eq_ok]
  constructor
  · rintro ⟨inner, hlocate, hentry⟩
    split at hentry
    next there hthere =>
      cases hentry
      exact ⟨hlocate, hthere⟩
    next => cases hentry
  · rintro ⟨hlocate, hentry⟩
    exact ⟨location, hlocate, by rw [hentry]; rfl⟩

/-- A component stays, goes up, or is a name in the directory. -/
theorem step_cases {directory location : Location} {component : List Char}
    (hstep : step directory component = .ok location) :
    isIdle component = true ∧ location = directory ∨
      component = ['.', '.'] ∧ location = directory.dropLast ∨
      isIdle component = false ∧ component ≠ ['.', '.'] ∧
        (String.ofList component).utf8ByteSize ≤ longestName ∧
        location = directory ++ [String.ofList component] := by
  unfold step at hstep
  split at hstep
  next hidle => exact .inl ⟨hidle, (Except.ok.inj hstep).symm⟩
  next hidle =>
    split at hstep
    next hup => exact .inr (.inl ⟨hup, (Except.ok.inj hstep).symm⟩)
    next hup =>
      split at hstep
      next => cases hstep
      next hlong =>
        exact .inr (.inr ⟨by simpa using hidle, hup, by omega, (Except.ok.inj hstep).symm⟩)

theorem names_of_step {system : FileSystem} {path : String} {above : List (List Char)}
    {last : List Char} {directory : Location} (hchecked : checkPath path = .ok ())
    (hcomponents : components path = above ++ [last])
    (hwalk : system.walk (system.origin path) above = .ok directory)
    (hentered : system.entry? directory = some .directory) (hidle : isIdle last = false)
    (hdown : last ≠ ['.', '.']) (hshort : (String.ofList last).utf8ByteSize ≤ longestName) :
    system.Names path directory (String.ofList last) where
  checked := hchecked
  above := ⟨above, by rw [hcomponents, String.toList_ofList], hwalk⟩
  entered := hentered
  moves := by rwa [String.toList_ofList]
  down := by rwa [String.toList_ofList]
  short := hshort

namespace Names

variable {system before after : FileSystem} {path name : String} {directory : Location}

theorem step (hnames : system.Names path directory name) :
    FileSystem.step directory name.toList = .ok (directory ++ [name]) := by
  have hshort := hnames.short
  rw [FileSystem.step, if_neg (by simp [hnames.moves]), if_neg hnames.down, String.ofList_toList,
    if_neg (by omega)]

theorem locate (hnames : system.Names path directory name) :
    system.locate path = .ok (directory ++ [name]) := by
  obtain ⟨above, hcomponents, hwalk⟩ := hnames.above
  rw [locate_eq_ok, hcomponents]
  exact ⟨hnames.checked, walk_concat_eq_ok.mpr ⟨directory, hwalk, hnames.entered, hnames.step⟩⟩

theorem of_sameDirectories (hsame : SameDirectories before after)
    (hnames : before.Names path directory name) : after.Names path directory name where
  checked := hnames.checked
  above := by
    obtain ⟨above, hcomponents, hwalk⟩ := hnames.above
    refine ⟨above, hcomponents, ?_⟩
    rw [origin, hsame.1]
    exact walk_of_sameDirectories hsame hwalk
  entered := (hsame.2 directory).mpr hnames.entered
  moves := hnames.moves
  down := hnames.down
  short := hnames.short

/-- The path of the copy names another file in the same directory. -/
theorem backup (hnames : system.Names path directory name) {location : Location}
    (hlocate : system.locate (backup path) = .ok location) :
    location = directory ++ [name ++ ".bak"] ∧
      system.Names (FilePath.backup path) directory (name ++ ".bak") := by
  obtain ⟨above, hcomponents, hwalk⟩ := hnames.above
  have hcopy : components (FilePath.backup path) = above ++ [name.toList ++ ".bak".toList] :=
    components_append (by decide) hcomponents
  have horigin : system.origin (FilePath.backup path) = system.origin path :=
    origin_append system (checkPath_eq_ok.mp hnames.checked).2.2 _
  have hname : String.ofList (name.toList ++ ".bak".toList) = name ++ ".bak" := by
    rw [← String.toList_append, String.ofList_toList]
  obtain ⟨hchecked, hlocation⟩ := locate_eq_ok.mp hlocate
  rw [hcopy, horigin] at hlocation
  obtain ⟨inner, habove, hentered, hstep⟩ := walk_concat_eq_ok.mp hlocation
  obtain rfl : directory = inner := Except.ok.inj (hwalk.symm.trans habove)
  rcases step_cases hstep with ⟨hidle, -⟩ | ⟨hup, -⟩ | ⟨hidle, hdown, hshort, hlocation⟩
  · rw [isIdle_copied] at hidle
    cases hidle
  · exact absurd hup (copied_ne (by decide))
  · rw [← hname]
    exact ⟨hlocation, names_of_step hchecked hcopy (horigin ▸ hwalk) hentered hidle hdown hshort⟩

/-- The directory above the path is the one in which the path names something. -/
theorem find_parent (hnames : system.Names path directory name) :
    system.find (parent path) = .ok (directory, .directory) := by
  obtain ⟨above, hcomponents, hwalk⟩ := hnames.above
  have hchars : path.toList = ['/'].intercalate (above ++ [name.toList]) := by
    rw [← hcomponents, components, intercalate_split]
  refine find_eq_ok.mpr ⟨locate_eq_ok.mpr ?_, hnames.entered⟩
  rcases parent_cases hcomponents hnames.moves with ⟨rfl, hparent⟩ |
    ⟨kept, idle, rfl, hidle, ⟨rfl, hparent⟩ | ⟨hkept, hparent, rest, hpath⟩⟩
  · -- Nothing but the name: the directory is the working directory.
    have hslash := slash_notMem_of_mem_split path.toList name.toList
      (by rw [← components, hcomponents]; exact List.mem_singleton_self _)
    have horigin : system.origin path = system.working := by
      refine if_neg fun hhead => hslash ?_
      rw [hchars, List.nil_append, List.intercalate_singleton] at hhead
      exact List.mem_of_head? hhead
    rw [horigin] at hwalk
    obtain rfl := Except.ok.inj hwalk
    rw [hparent]
    exact ⟨rfl, walk_cons_eq_ok.mpr ⟨hnames.entered, system.working, rfl, rfl⟩⟩
  · -- A slash in front of the name, perhaps with idle components: the directory is the root.
    have horigin : system.origin path = [] := by
      refine if_pos ?_
      rw [hchars, List.append_assoc, List.singleton_append, intercalate_cons (by simp)]
      rfl
    rw [horigin] at hwalk
    rw [hparent, walk_idle (List.forall_mem_cons.mpr ⟨rfl, hidle⟩) hwalk]
    exact ⟨rfl, walk_cons_eq_ok.mpr ⟨entry_nil system, [], rfl,
      walk_cons_eq_ok.mpr ⟨entry_nil system, [], rfl, rfl⟩⟩⟩
  · have hfront : parent path ≠ "" := by
      intro hempty
      rw [hempty] at hparent
      exact hkept hparent.symm
    refine ⟨checkPath_of_append hfront (hpath ▸ hnames.checked), ?_⟩
    rw [walk_append, Except.bind_eq_ok] at hwalk
    obtain ⟨inner, hinner, hwalk⟩ := hwalk
    rw [hparent, ← origin_append system hfront rest, ← hpath, hinner, walk_idle hidle hwalk]

end Names

theorem ne_copied (directory : Location) (name : String) :
    directory ++ [name] ≠ directory ++ [name ++ ".bak"] := by
  intro heq
  have hlength := congrArg (fun names => names.map String.length) heq
  simp at hlength

/-- A path at the end of which a file is names it. -/
theorem names_of_find {system : FileSystem} (hsystem : system.WellFormed) {path : String}
    {location : Location} {contents : Bytes}
    (hfind : system.find path = .ok (location, .file contents)) :
    ∃ directory name, location = directory ++ [name] ∧ system.Names path directory name := by
  obtain ⟨hlocate, hentry⟩ := find_eq_ok.mp hfind
  obtain ⟨hchecked, hlocation⟩ := locate_eq_ok.mp hlocate
  obtain ⟨above, last, hcomponents⟩ := (List.eq_nil_or_concat' (components path)).resolve_left
    (split_ne_nil path.toList)
  rw [hcomponents] at hlocation
  obtain ⟨directory, hwalk, hentered, hstep⟩ := walk_concat_eq_ok.mp hlocation
  rcases step_cases hstep with ⟨-, rfl⟩ | ⟨-, rfl⟩ | ⟨hidle, hdown, hshort, rfl⟩
  · rw [hentered] at hentry
    cases hentry
  · rw [hsystem _ _ hentered] at hentry
    cases hentry
  · exact ⟨directory, String.ofList last, rfl,
      names_of_step hchecked hcomponents hwalk hentered hidle hdown hshort⟩

/-- A path to which a file can be moved names a place where no directory is. -/
theorem names_of_target {system : FileSystem} {path : String} {location : Location}
    (htarget : system.target path = .ok location) :
    system.entry? location ≠ some .directory ∧
      ∃ directory name, location = directory ++ [name] ∧ system.Names path directory name := by
  simp only [target, Except.bind_eq_ok] at htarget
  obtain ⟨_, hchecked, directory, hwalk, _, hentered, hname⟩ := htarget
  split at hname
  next => cases hname
  next name hhead =>
    split at hname
    next => cases hname
    next hdots =>
      obtain ⟨inner, hstep, hname⟩ := Except.bind_eq_ok.mp hname
      split at hname
      next => cases hname
      next hlength =>
        obtain ⟨_, hfree, hinner⟩ := Except.bind_eq_ok.mp hname
        obtain rfl := Except.ok.inj hinner
        -- No empty component is behind the name, so that it is the last one.
        have hnamed := (List.dropWhile_suffix List.isEmpty).eq_of_length_le (not_lt.mp hlength)
        have hnonempty := List.head?_dropWhile_not List.isEmpty (components path).reverse
        rw [hhead] at hnonempty
        rw [hnamed] at hhead hwalk
        obtain ⟨rest, hrest⟩ := List.head?_eq_some_iff.mp hhead
        have hcomponents : components path = rest.reverse ++ [name] := by
          rw [← List.reverse_cons, ← hrest, List.reverse_reverse]
        rw [hrest, List.tail_cons] at hwalk
        simp only [Bool.or_eq_true, beq_iff_eq, not_or] at hdots
        rcases step_cases hstep with ⟨hidle, -⟩ | ⟨hup, -⟩ | ⟨hidle, hdown, hshort, hlocation⟩
        · rcases isIdle_iff.mp hidle with rfl | hdot
          · cases hnonempty
          · exact absurd hdot hdots.1
        · exact absurd hup hdots.2
        · exact ⟨checkFile_eq_ok.mp hfree, directory, _, hlocation, names_of_step hchecked
            hcomponents hwalk (enter_eq_ok.mp hentered) hidle hdown hshort⟩

/-- A file can be moved to a path that names a place where no directory is. -/
theorem Names.target {system : FileSystem} {path name : String} {directory : Location}
    (hnames : system.Names path directory name)
    (hfree : system.entry? (directory ++ [name]) ≠ some .directory) :
    system.target path = .ok (directory ++ [name]) := by
  obtain ⟨above, hcomponents, hwalk⟩ := hnames.above
  have hidle : ¬ isIdle name.toList = true := by simp [hnames.moves]
  rw [isIdle_iff, not_or] at hidle
  have hdots : ¬ (name.toList == ['.'] || name.toList == ['.', '.']) = true := by
    simp [hidle.2, hnames.down]
  have hnamed : (components path).reverse.dropWhile List.isEmpty =
      (components path).reverse := by
    rw [hcomponents, List.reverse_concat, List.dropWhile_cons_of_neg (by simpa using hidle.1)]
  simp only [FileSystem.target, Except.bind_eq_ok]
  refine ⟨(), hnames.checked, directory, ?_, (), enter_eq_ok.mpr hnames.entered, ?_⟩
  · rw [hnamed, hcomponents, List.reverse_concat, List.tail_cons, List.reverse_reverse, hwalk]
  · simp only [hnamed, lt_irrefl, if_false]
    rw [hcomponents, List.reverse_concat, List.head?_cons]
    refine (if_neg hdots).trans (Except.bind_eq_ok.mpr ⟨_, hnames.step, ?_⟩)
    exact Except.bind_eq_ok.mpr ⟨(), checkFile_eq_ok.mpr hfree, rfl⟩

end HclEditor.FileSystem
