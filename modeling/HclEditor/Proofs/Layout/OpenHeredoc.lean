import Mathlib
import HclEditor.Proofs.Layout.Separation

/-!
# Heredocs that the layout leaves open

A heredoc with something behind it on its closing line is not closed there. A layout whose
tokens all stay apart has no such heredoc, and any other layout of a sound document has a
first one.
-/

namespace HclEditor

open Piece Layout Lexeme

namespace Piece

/-- The pieces are apart for every reader, or up to the first heredoc with something behind
it on its closing line. -/
theorem separate_or_open {rest : List Char} {pieces : List Piece}
    (hpieces : Separate True rest pieces) :
    Separate False rest pieces ∨ ∃ before text behind,
      pieces = before ++ .token (.literal .heredoc) text :: behind ∧
      Separate False (text.toList ++ (charsOf behind ++ rest)) before ∧
      (TokenKind.literal .heredoc).Spells text ∧ ¬ AtLineEnd (charsOf behind ++ rest) := by
  induction pieces with
  | nil => exact .inl separate_nil
  | cons piece pieces ih =>
      cases piece with
      | gap chars =>
          obtain ⟨hgaps, hpieces⟩ := separate_gap.mp hpieces
          rcases ih hpieces with hall | ⟨before, text, behind, rfl, hbefore, hspells, hopen⟩
          · exact .inl (separate_gap.mpr ⟨hgaps, hall⟩)
          · exact .inr ⟨.gap chars :: before, text, behind, rfl,
              separate_gap.mpr ⟨hgaps, hbefore⟩, hspells, hopen⟩
      | token kind text =>
          obtain ⟨htoken, hpieces⟩ := separate_token.mp hpieces
          -- Lax and strict readers differ at such a heredoc only.
          by_cases hopen : kind = .literal .heredoc ∧ ¬ AtLineEnd (charsOf pieces ++ rest)
          · obtain ⟨rfl, hopen⟩ := hopen
            rw [TokenKind.ReadsBefore, if_pos rfl] at htoken
            exact .inr ⟨[], text, pieces, rfl, separate_nil, htoken.1, hopen⟩
          · have hreads : kind.ReadsBefore False text (charsOf pieces ++ rest) := by
              rw [TokenKind.ReadsBefore] at htoken ⊢
              split at htoken
              next hkind =>
                rw [if_pos hkind]
                exact ⟨htoken.1, .inl (by_contra fun hend => hopen ⟨hkind, hend⟩)⟩
              next hkind => rwa [if_neg hkind]
            rcases ih hpieces with hall | ⟨before, text', behind, rfl, hbefore, hspells, hopen'⟩
            · exact .inl (separate_token.mpr ⟨hreads, hall⟩)
            · refine .inr ⟨.token kind text :: before, text', behind, rfl,
                separate_token.mpr ⟨?_, hbefore⟩, hspells, hopen'⟩
              rwa [charsOf_append, charsOf_token, List.append_assoc, List.append_assoc] at hreads

end Piece

namespace Layout

/-- A heredoc that stays apart has the end of the line behind it. -/
theorem atLineEnd_of_isHeredoc {indent depth : Nat} {value : Value} {rest : List Char}
    (hseparate : Separate False rest (value.pieces indent depth))
    (hheredoc : value.isHeredoc = true) : AtLineEnd rest := by
  cases value with
  | literal literal =>
      have hkind : literal.kind = .heredoc := beq_iff_eq.mp hheredoc
      obtain ⟨htoken, -⟩ := separate_token.mp hseparate
      rw [hkind, TokenKind.ReadsBefore, if_pos rfl, or_false] at htoken
      exact htoken.2
  | _ => cases hheredoc

/-- A trailing comment starts with a space. -/
theorem eq_none_of_atLineEnd {comment : Option String} {rest : List Char}
    (hend : AtLineEnd (charsOf (trailingPieces comment) ++ rest)) : comment = none := by
  cases comment with
  | none => rfl
  | some text => cases startsIn_cons.mp hend

theorem separate_of_belowPieces {margin : String} {entries : List (Entry × Nat)} {above : Item}
    {rest : List Char} (hseparate : Separate False rest (belowPieces margin above entries)) :
    ∀ entry ∈ entries, ∃ tail, Separate False tail (entry.1.pieces margin entry.2) := by
  induction entries generalizing above with
  | nil => simp
  | cons entry entries ih =>
      rw [belowPieces, separate_gap, separate_append] at hseparate
      exact List.forall_mem_cons.mpr ⟨⟨_, hseparate.2.1⟩, ih hseparate.2.2⟩

/-- In a body that stays apart every entry does. -/
theorem separate_of_bodyPieces {margin : String} {entries : List Entry}
    {dangling : List String} {rest : List Char}
    (hseparate : Separate False rest (bodyPieces margin entries dangling)) :
    ∀ entry ∈ entries, ∃ width tail, Separate False tail (entry.pieces margin width) := by
  have hlength := length_widths (entries.map Entry.row)
  rw [List.length_map] at hlength
  rw [bodyPieces, separate_append] at hseparate
  have hall : ∀ entry ∈ entries.zip (widths (entries.map Entry.row)),
      ∃ tail, Separate False tail (entry.1.pieces margin entry.2) := by
    obtain ⟨hentries, -⟩ := hseparate
    cases hzip : entries.zip (widths (entries.map Entry.row)) with
    | nil => simp
    | cons first below =>
        rw [hzip, entriesPieces, separate_append] at hentries
        exact List.forall_mem_cons.mpr ⟨⟨_, hentries.1⟩, separate_of_belowPieces hentries.2⟩
  intro entry hentry
  rw [← List.map_fst_zip hlength.ge] at hentry
  obtain ⟨pair, hpair, rfl⟩ := List.mem_map.mp hentry
  obtain ⟨tail, htail⟩ := hall pair hpair
  exact ⟨pair.2, tail, htail⟩

theorem heredocAlone_of_compactList? {list : ListBody} {text : String}
    (htext : compactList? list = some text) : ∀ part ∈ list.parts, part.HeredocAlone := by
  obtain ⟨-, hscalars⟩ := scalars_of_compactList? htext
  refine ListBody.forall_parts.mpr ⟨?_, fun _ _ => trivial⟩
  intro element helement
  obtain ⟨hscalar, hheredoc, -⟩ := hscalars element helement
  refine Element.forall_parts.mpr ⟨hheredoc, fun _ _ => trivial, ?_, fun _ _ => trivial⟩
  cases hvalue : element.value with
  | literal literal => exact List.forall_mem_singleton.mpr trivial
  | _ =>
      rw [hvalue] at hscalar
      cases hscalar

end Layout

mutual

theorem Value.heredocAlone_of_separate (indent depth : Nat) {value : Value} {rest : List Char}
    (hseparate : Separate False rest (value.pieces indent depth)) :
    ∀ part ∈ value.parts, part.HeredocAlone := by
  cases value with
  | literal literal => exact List.forall_mem_singleton.mpr trivial
  | object body =>
      rw [Value.pieces] at hseparate
      split at hseparate
      next hempty =>
        rw [body.eq_of_isEmpty hempty]
        simp [Value.parts, Body.parts, Part.ofItems]
      next =>
        rw [separate_token, separate_gap, separate_append] at hseparate
        exact body.heredocAlone_of_separate indent (depth + 1) hseparate.2.2.1
  | list list =>
      rw [Value.pieces] at hseparate
      split at hseparate
      next hempty =>
        rw [list.eq_of_isEmpty hempty]
        simp [Value.parts, ListBody.parts, Part.ofElements]
      next =>
        split at hseparate
        next text htext => exact heredocAlone_of_compactList? htext
        next =>
          rw [separate_token, separate_gap, separate_append] at hseparate
          exact list.heredocAlone_of_separate indent (depth + 1) hseparate.2.2.1

/-- Where the layout of a body stays apart nothing is laid out behind a heredoc. -/
theorem Body.heredocAlone_of_separate (indent depth : Nat) {body : Body} {rest : List Char}
    (hseparate : Separate False rest (body.pieces indent depth)) :
    ∀ part ∈ body.parts, part.HeredocAlone := by
  obtain ⟨items, dangling⟩ := body
  exact Body.forall_parts.mpr ⟨Layout.heredocAlone_of_entriesOf indent depth
    (separate_of_bodyPieces hseparate), fun _ _ => trivial⟩

theorem Layout.heredocAlone_of_entriesOf (indent depth : Nat) {items : List Item}
    (hseparate : ∀ entry ∈ entriesOf indent depth items, ∃ width tail,
      Separate False tail (entry.pieces (margin indent depth) width)) :
    ∀ item ∈ items, ∀ part ∈ item.parts, part.HeredocAlone := by
  cases items with
  | nil => simp
  | cons item items =>
      rw [entriesOf, List.forall_mem_cons] at hseparate
      obtain ⟨⟨width, tail, hitem⟩, hitems⟩ := hseparate
      rw [Entry.pieces, separate_append, separate_gap, separate_append, separate_append] at hitem
      exact List.forall_mem_cons.mpr
        ⟨item.heredocAlone_of_separate indent depth hitem.2.2.1.2,
          Layout.heredocAlone_of_entriesOf indent depth hitems⟩

theorem Item.heredocAlone_of_separate (indent depth : Nat) {item : Item} {rest : List Char}
    (hseparate : Separate False (charsOf (trailingPieces item.comments.line) ++ rest)
      (item.valuePieces indent depth)) :
    ∀ part ∈ item.parts, part.HeredocAlone := by
  obtain ⟨keys, value, assigned, comments, blankBefore, span⟩ := item
  refine Item.forall_parts.mpr ⟨?_, fun _ _ => trivial, fun _ _ => trivial,
    value.heredocAlone_of_separate indent depth hseparate, fun _ _ => trivial⟩
  intro hheredoc
  exact eq_none_of_atLineEnd (atLineEnd_of_isHeredoc hseparate hheredoc)

theorem ListBody.heredocAlone_of_separate (indent depth : Nat) {list : ListBody}
    {rest : List Char} (hseparate : Separate False rest (list.pieces indent depth)) :
    ∀ part ∈ list.parts, part.HeredocAlone := by
  obtain ⟨elements, dangling⟩ := list
  rw [ListBody.pieces, separate_append] at hseparate
  exact ListBody.forall_parts.mpr ⟨Layout.heredocAlone_of_elementsPieces indent depth
    hseparate.1, fun _ _ => trivial⟩

theorem Layout.heredocAlone_of_elementsPieces (indent depth : Nat) {elements : List Element}
    {rest : List Char} (hseparate : Separate False rest (elementsPieces indent depth elements)) :
    ∀ element ∈ elements, ∀ part ∈ element.parts, part.HeredocAlone := by
  cases elements with
  | nil => simp
  | cons element elements =>
      obtain ⟨value, comments⟩ := element
      rw [elementsPieces, separate_append, elementPieces, separate_append, separate_gap,
        separate_append] at hseparate
      obtain ⟨⟨-, -, hvalue, -⟩, hothers⟩ := hseparate
      refine List.forall_mem_cons.mpr ⟨Element.forall_parts.mpr ⟨?_, fun _ _ => trivial,
        value.heredocAlone_of_separate indent depth hvalue, fun _ _ => trivial⟩,
        Layout.heredocAlone_of_elementsPieces indent depth hothers⟩
      -- The comma is on the closing line.
      refine Bool.eq_false_iff.mpr fun hheredoc => ?_
      cases startsIn_cons.mp (atLineEnd_of_isHeredoc hvalue hheredoc)

end

end HclEditor
