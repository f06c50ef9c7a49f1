import Mathlib
import HclEditor.Storage.Load

/-!
# Components of paths

A path is its components with slashes between them. The directory that a file is in has
the components in front of the file's name, except for some idle ones at the end, and the
copy that is kept of a file has a name that does not say that it is gzip data.
-/

namespace HclEditor.FilePath

theorem isIdle_iff {component : List Char} :
    isIdle component = true ↔ component = [] ∨ component = ['.'] := by
  simp [isIdle]

theorem split_ne_nil (cs : List Char) : components.split cs ≠ [] := by
  fun_cases components.split cs <;> exact List.cons_ne_nil _ _

/-- A character begins another component or belongs to the next one. -/
theorem split_cons_cases (c : Char) (cs : List Char) :
    c = '/' ∧ components.split (c :: cs) = [] :: components.split cs ∨
      c ≠ '/' ∧ ∃ piece pieces, components.split cs = piece :: pieces ∧
        components.split (c :: cs) = (c :: piece) :: pieces := by
  by_cases hc : c = '/'
  · exact .inl ⟨hc, by rw [hc]; rfl⟩
  · obtain ⟨piece, pieces, hsplit⟩ := List.exists_cons_of_ne_nil (split_ne_nil cs)
    exact .inr ⟨hc, piece, pieces, hsplit, by
      rw [components.split.eq_3 c cs fun h => hc h, hsplit]⟩

/-- No slash is in a component. -/
theorem slash_notMem_of_mem_split (cs : List Char) :
    ∀ piece ∈ components.split cs, '/' ∉ piece := by
  induction cs with
  | nil => exact List.forall_mem_singleton.mpr List.not_mem_nil
  | cons c cs ih =>
      rcases split_cons_cases c cs with ⟨-, hsplit⟩ | ⟨hc, piece, pieces, hpieces, hsplit⟩
      · rw [hsplit]
        exact List.forall_mem_cons.mpr ⟨List.not_mem_nil, ih⟩
      · rw [hpieces] at ih
        obtain ⟨hpiece, hothers⟩ := List.forall_mem_cons.mp ih
        rw [hsplit]
        exact List.forall_mem_cons.mpr ⟨by simp [Ne.symm hc, hpiece], hothers⟩

theorem intercalate_cons {pieces : List (List Char)} (hpieces : pieces ≠ []) (piece : List Char) :
    ['/'].intercalate (piece :: pieces) = piece ++ '/' :: ['/'].intercalate pieces := by
  obtain ⟨next, others, rfl⟩ := List.exists_cons_of_ne_nil hpieces
  rw [List.intercalate_cons_cons, List.append_assoc, List.singleton_append]

/-- A text is its components with slashes between them. -/
theorem intercalate_split (cs : List Char) : ['/'].intercalate (components.split cs) = cs := by
  induction cs with
  | nil => rfl
  | cons c cs ih =>
      rcases split_cons_cases c cs with ⟨rfl, hsplit⟩ | ⟨-, piece, pieces, hpieces, hsplit⟩
      · rw [hsplit, intercalate_cons (split_ne_nil cs), ih, List.nil_append]
      · rw [hpieces] at ih
        rw [hsplit, ← ih]
        cases pieces with
        | nil => rfl
        | cons next others => rw [List.intercalate_cons_cons, List.intercalate_cons_cons]; rfl

theorem split_of_slash_notMem {piece : List Char} (hpiece : '/' ∉ piece) :
    components.split piece = [piece] := by
  induction piece with
  | nil => rfl
  | cons c cs ih =>
      obtain ⟨hc, hcs⟩ := not_or.mp (List.mem_cons.not.mp hpiece)
      rw [components.split.eq_3 c cs fun h => hc h.symm, ih hcs]

theorem split_append_slash {piece : List Char} (hpiece : '/' ∉ piece) (rest : List Char) :
    components.split (piece ++ '/' :: rest) = piece :: components.split rest := by
  induction piece with
  | nil => rfl
  | cons c cs ih =>
      obtain ⟨hc, hcs⟩ := not_or.mp (List.mem_cons.not.mp hpiece)
      rw [List.cons_append, components.split.eq_3 c _ fun h => hc h.symm, ih hcs]

/-- Components with slashes between them are taken apart again. -/
theorem split_intercalate {pieces : List (List Char)} (hpieces : pieces ≠ [])
    (hslash : ∀ piece ∈ pieces, '/' ∉ piece) :
    components.split (['/'].intercalate pieces) = pieces := by
  induction pieces with
  | nil => exact absurd rfl hpieces
  | cons piece pieces ih =>
      obtain ⟨hpiece, hothers⟩ := List.forall_mem_cons.mp hslash
      by_cases hpieces : pieces = []
      · rw [hpieces, List.intercalate_singleton, split_of_slash_notMem hpiece]
      · rw [intercalate_cons hpieces, split_append_slash hpiece, ih hpieces hothers]

/-- The text of some components is continued by more of them. -/
theorem exists_intercalate_append (pieces more : List (List Char)) :
    ∃ rest, ['/'].intercalate (pieces ++ more) = ['/'].intercalate pieces ++ rest := by
  induction pieces with
  | nil => exact ⟨_, rfl⟩
  | cons piece pieces ih =>
      obtain ⟨rest, hrest⟩ := ih
      by_cases hpieces : pieces = []
      · cases more <;> simp [hpieces]
      · rw [List.cons_append, intercalate_cons (by simp [hpieces]), intercalate_cons hpieces, hrest]
        exact ⟨rest, by simp⟩

theorem intercalate_concat (above : List (List Char)) (last suffix : List Char) :
    ['/'].intercalate (above ++ [last]) ++ suffix =
      ['/'].intercalate (above ++ [last ++ suffix]) := by
  induction above with
  | nil => simp
  | cons piece above ih =>
      rw [List.cons_append, List.cons_append, intercalate_cons (by simp),
        intercalate_cons (by simp), List.append_assoc, List.cons_append, ih]

/-- What stands behind a path without a slash belongs to its last component. -/
theorem components_append {path suffix : String} (hsuffix : '/' ∉ suffix.toList)
    {above : List (List Char)} {last : List Char} (hpath : components path = above ++ [last]) :
    components (path ++ suffix) = above ++ [last ++ suffix.toList] := by
  have hslash := slash_notMem_of_mem_split path.toList
  have hchars := intercalate_split path.toList
  rw [← components, hpath] at hslash hchars
  obtain ⟨habove, hlast⟩ := List.forall_mem_append.mp hslash
  rw [components, String.toList_append, ← hchars, intercalate_concat]
  refine split_intercalate (by simp) (List.forall_mem_append.mpr ⟨habove, ?_⟩)
  simpa [hsuffix] using hlast

/-- Only idle components are dropped. -/
theorem exists_dropIdle (pieces : List (List Char)) :
    ∃ idle, pieces = idle ++ dropIdle pieces ∧ ∀ piece ∈ idle, isIdle piece = true := by
  fun_induction dropIdle pieces with
  | case1 => exact ⟨[], rfl, by simp⟩
  | case2 first => exact ⟨[], rfl, by simp⟩
  | case3 last above hmore hidle ih =>
      obtain ⟨idle, habove, hall⟩ := ih
      exact ⟨last :: idle, congrArg (last :: ·) habove, List.forall_mem_cons.mpr ⟨hidle, hall⟩⟩
  | case4 last above hmore hidle => exact ⟨[], rfl, by simp⟩

/-- The component that comes first is not dropped. -/
theorem dropIdle_eq_nil {pieces : List (List Char)} (hdrop : dropIdle pieces = []) :
    pieces = [] := by
  fun_induction dropIdle pieces with
  | case1 => rfl
  | case2 first => cases hdrop
  | case3 last above hmore hidle ih => exact absurd (ih hdrop) hmore
  | case4 last above hmore hidle => cases hdrop

section Named

variable {path : String} {above : List (List Char)} {last : List Char}
  (hpath : components path = above ++ [last]) (hlast : isIdle last = false)
include hpath hlast

theorem fromLast_eq : fromLast path = last :: above.reverse := by
  rw [fromLast, hpath, List.reverse_concat]
  cases above.reverse with
  | nil => rfl
  | cons next others => rw [dropIdle.eq_3 _ _ (List.cons_ne_nil _ _), if_neg (by simp [hlast])]

/-- The directory above a name is the root, or not named, or named by a part of the path
whose components are those above the name except for idle ones. -/
theorem parent_cases :
    above = [] ∧ parent path = "." ∨
      ∃ kept idle, above = kept ++ idle ∧ (∀ piece ∈ idle, isIdle piece = true) ∧
        (kept = [[]] ∧ parent path = "/" ∨
          kept ≠ [[]] ∧ components (parent path) = kept ∧ ∃ rest, path = parent path ++ rest) := by
  obtain ⟨idle, habove, hidle⟩ := exists_dropIdle above.reverse
  have hkept : above = (dropIdle above.reverse).reverse ++ idle.reverse := by
    rw [← List.reverse_append, ← habove, List.reverse_reverse]
  simp only [parent, fromLast_eq hpath hlast, List.tail_cons]
  generalize hdrop : dropIdle above.reverse = dropped at hkept
  split
  next hroot =>
    rw [hroot] at hkept
    exact .inr ⟨[[]], idle.reverse, hkept, by simpa using hidle, .inl ⟨rfl, rfl⟩⟩
  next hroot =>
    split
    next hnone =>
      exact .inl ⟨List.reverse_eq_nil_iff.mp (dropIdle_eq_nil (hdrop.trans hnone)), rfl⟩
    next hsome =>
      refine .inr ⟨dropped.reverse, idle.reverse, hkept, by simpa using hidle, .inr ⟨?_, ?_, ?_⟩⟩
      · simpa [List.reverse_eq_iff] using hroot
      · have hslash := slash_notMem_of_mem_split path.toList
        rw [← components, hpath, hkept, List.append_assoc] at hslash
        rw [components, join, String.toList_ofList]
        exact split_intercalate (by simpa using hsome) (List.forall_mem_append.mp hslash).1
      · obtain ⟨rest, hrest⟩ := exists_intercalate_append dropped.reverse (idle.reverse ++ [last])
        refine ⟨String.ofList rest, ?_⟩
        rw [join, ← String.ofList_append, ← hrest, ← List.append_assoc, ← hkept, ← hpath,
          components, intercalate_split, String.ofList_toList]

end Named

/-- The name of a copy ends with a letter, so that it stays in the directory and moves. -/
theorem copied_ne {last component : List Char} (hcomponent : component.getLast? ≠ some 'k') :
    last ++ ".bak".toList ≠ component := by
  rintro rfl
  simp at hcomponent

theorem isIdle_copied (last : List Char) : isIdle (last ++ ".bak".toList) = false := by
  rw [Bool.eq_false_iff, Ne, isIdle_iff, not_or]
  exact ⟨copied_ne (by decide), copied_ne (by decide)⟩

/-- The name of a copy does not say that it is gzip data. -/
theorem isGzipPath_backup (path : String) : isGzipPath (backup path) = false := by
  obtain ⟨above, last, hpath⟩ := (List.eq_nil_or_concat' (components path)).resolve_left
    (split_ne_nil path.toList)
  have hcopy : components (backup path) = above ++ [last ++ ".bak".toList] :=
    components_append (by decide) hpath
  have hup : (last ++ ".bak".toList == ['.', '.']) = false :=
    beq_false_of_ne (copied_ne (by decide))
  have hname : fileName? (backup path) = some (last ++ ".bak".toList) := by
    simp only [fileName?, fromLast_eq hcopy (isIdle_copied last), isIdle_copied, hup]
    rfl
  simp only [isGzipPath, hasExtension, hname, Bool.and_eq_false_iff]
  refine .inl (Bool.eq_false_iff.mpr fun hsuffix => ?_)
  obtain ⟨front, hfront⟩ := List.isSuffixOf_iff_suffix.mp hsuffix
  exact copied_ne (by simp) hfront.symm

end HclEditor.FilePath
