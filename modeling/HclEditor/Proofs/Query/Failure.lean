import Mathlib
import HclEditor.Query.Edit
import HclEditor.Proofs.Query.Independence

/-!
# Accesses that fail

A strict access fails when its query selects nothing. All values of the document have been
gone through by then, and the document is made anew from what was found, so that it is the
same only because nothing was there to be replaced. A read that fails on the way has put out
nothing of what it had found before.
-/

namespace HclEditor

namespace Body

variable (query : Query) (literal : Literal) (body : Body)

/-- A query addresses nothing in a body exactly if it selects nothing there. -/
theorem addressed_eq_nil_iff :
    body.addressed query = [] ↔ ∀ path, ¬ (Node.document body).SelectedAt query [] path := by
  constructor
  · intro hnone path hpath
    obtain ⟨entry, hentry, -⟩ := id hpath
    have hmem : entry ∈ body.addressed query :=
      Node.mem_addressed_of_selectedAt query.misses_nil hpath hentry
    rw [hnone] at hmem
    cases hmem
  · exact Node.addressed_remaining_eq_nil query.misses_nil

/-- Where a query addresses nothing, replacing makes the body that was there. -/
theorem replaced_eq_self (hnone : body.addressed query = []) :
    body.replaced query literal = body := by
  have hnode : (Node.document body).addressed query = [] := hnone
  exact Node.document.inj (Node.replaced_eq_self hnode literal)

end Body

namespace Document

variable {document : Document}

/-- Setting fails only for want of something to set. -/
theorem isOk_set_eq_false_iff {query : Query} {strict : Bool} {literal : Literal} :
    (document.set query strict literal).2.isOk = false ↔
      strict = true ∧ document.body.addressed query = [] := by
  rw [set_eq, ← List.length_eq_zero_iff, and_comm (a := strict = true)]
  dsimp only
  split
  next hfails => exact iff_of_true rfl hfails
  next hfails => exact iff_of_false (by simp [Except.isOk, Except.toBool]) hfails

theorem set_eq_self {query : Query} (hnone : document.body.addressed query = [])
    (strict : Bool) (literal : Literal) : (document.set query strict literal).1 = document := by
  rw [set_eq, Body.replaced_eq_self query literal document.body hnone]

/-- A text value that cannot be set has not been set anywhere: either nothing was looked for,
or the query, which is never strict, has been followed to the end. -/
theorem setText_eq_self {query value : String} {type : ValueType} {error : EditError}
    (hset : (document.setText query value type).2 = .error error) :
    (document.setText query value type).1 = document := by
  unfold setText at hset ⊢
  split at hset
  · rfl
  · rfl
  next query literal _ _ =>
    -- An access that is not strict has nothing to fail for.
    have hok : (document.set query false literal).2.isOk = true := by
      by_contra hfails
      rw [Bool.not_eq_true, isOk_set_eq_false_iff] at hfails
      cases hfails.1
    obtain ⟨count, hcount⟩ := Except.exists_of_isOk hok
    change ((document.set query false literal).2.mapError EditError.access) = .error error at hset
    rw [hcount] at hset
    cases hset

/-- A read that fails before it puts anything out leaves the output as it was. -/
theorem get_eq_self {query : Query} {strict : Bool} {sink : Sink} {error : AccessError}
    (hget : (document.get query strict sink).2 = .error error) (herror : error ≠ .outputFull) :
    (document.get query strict sink).1 = sink := by
  unfold get at hget ⊢
  split at hget
  · rfl
  next contents _ =>
    -- From here on the contents are known, and only a full output is left to fail.
    dsimp only at hget
    split at hget
    · cases hget
    · exact absurd (Except.error.inj hget).symm herror

/-- Setting fails exactly if it is strict and the query selects nothing. The document is the
same whenever nothing is selected, and after a text value that cannot be set. A read that
finds an item without a scalar, or that nothing is there to be read, puts out nothing. -/
theorem unchanged_of_failure (document : Document) :
    (∀ query strict literal,
      ((document.set query strict literal).2.isOk = false ↔
        strict = true ∧ ∀ path, ¬ document.root.SelectedAt query [] path) ∧
      ((∀ path, ¬ document.root.SelectedAt query [] path) →
        (document.set query strict literal).1 = document)) ∧
    (∀ query value type error, (document.setText query value type).2 = .error error →
      (document.setText query value type).1 = document) ∧
    ∀ query strict sink error, (document.get query strict sink).2 = .error error →
      error ≠ .outputFull → (document.get query strict sink).1 = sink := by
  refine ⟨?_, fun _ _ _ _ => setText_eq_self, fun _ _ _ _ => get_eq_self⟩
  intro query strict literal
  have hnone := document.body.addressed_eq_nil_iff query
  constructor
  · rw [isOk_set_eq_false_iff, hnone]
    exact Iff.rfl
  · intro hselected
    exact set_eq_self (hnone.mpr hselected) strict literal

/-- The second of two matches is a block, a strict query has no match, and a number has a
letter in it. -/
theorem unchanged_of_failure_block : ∃ document, parse "b \x7b a = 1 \x7d\na \x7b c = 2 \x7d\n" =
    .ok document ∧
      (document.get ⟨[], "a"⟩ true {}).1 = {} ∧
      (document.set ⟨[.named "a"], "b"⟩ true ⟨.number, "3"⟩).1 = document ∧
      (document.setText "a" "12x" .int).1 = document := by
  obtain ⟨document, hparse, hdocument⟩ := Except.exists_of_map
    (x := parse "b \x7b a = 1 \x7d\na \x7b c = 2 \x7d\n")
    (p := fun document =>
      decide ((document.get ⟨[], "a"⟩ true {}).2 = .error (.notScalar "a" "an object")) &&
        decide ((document.set ⟨[.named "a"], "b"⟩ true ⟨.number, "3"⟩).2.isOk = false) &&
        decide ((document.setText "a" "12x" .int).2 =
          .error (.value ⟨"12x", .int .invalidDigit⟩))) (by decide +kernel)
  simp only [Bool.and_eq_true, decide_eq_true_eq] at hdocument
  obtain ⟨⟨hget, hset⟩, htext⟩ := hdocument
  obtain ⟨hsets, htexts, hgets⟩ := unchanged_of_failure document
  obtain ⟨hfails, hself⟩ := hsets ⟨[.named "a"], "b"⟩ true ⟨.number, "3"⟩
  exact ⟨document, hparse, hgets _ _ _ _ hget (by simp), hself (hfails.mp hset).2,
    htexts _ _ _ _ htext⟩

end Document

end HclEditor
