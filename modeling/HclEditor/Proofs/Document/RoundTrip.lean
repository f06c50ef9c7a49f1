import Mathlib
import HclEditor.Proofs.Assembly.Acceptance
import HclEditor.Proofs.Assembly.Rereading
import HclEditor.Proofs.Layout.OpenHeredoc
import HclEditor.Proofs.Layout.Stable

/-!
# Layouts are documents

The layout of a sound document is a source again unless something is laid out behind a
heredoc on its closing line, and reading it gives the document back. Printing a tree and
parsing the text is the identity on printable trees, and formatting a source twice is the
same as formatting it once, whatever the indents.
-/

namespace HclEditor

namespace Document

open Piece Layout

/-- What is written to files behind the layout. -/
def ending (indent : Nat) (document : Document) : List Char :=
  if (document.layout indent).isEmpty then [] else ['\n']

theorem isGap_ending (indent : Nat) (document : Document) :
    ∀ c ∈ document.ending indent, Lexeme.isGap c = true := by
  unfold ending
  split <;> exact List.all_eq_true.mp rfl

theorem atLineEnd_ending (indent : Nat) (document : Document) :
    Lexeme.AtLineEnd (document.ending indent) := by
  unfold ending
  split
  · exact Lexeme.startsIn_nil _
  · exact Lexeme.startsIn_cons.mpr rfl

theorem toList_layout (indent : Nat) (document : Document) :
    (document.layout indent).toList = charsOf (document.body.pieces indent 0) := by
  rw [Body.charsOf_pieces]
  rfl

theorem toList_render (indent : Nat) (document : Document) :
    (document.render indent).toList =
      charsOf (document.body.pieces indent 0) ++ document.ending indent := by
  rw [render, ending, ← toList_layout]
  split
  next hempty =>
    rw [String.isEmpty_iff.mp hempty]
    rfl
  next => exact String.toList_append ..

/-- A body that stays apart is read back from a text that holds nothing else. -/
theorem parse_of_separate {document : Document} {indent : Nat} {text : String}
    {gaps : List Char}
    (htext : text.toList = charsOf (document.body.pieces indent 0) ++ gaps)
    (hgaps : ∀ c ∈ gaps, Lexeme.isGap c = true)
    (hsound : ∀ part ∈ document.body.parts, part.Sound)
    (hseparate : Separate False gaps (document.body.pieces indent 0)) :
    ∃ again, Document.parse text = .ok again ∧ document.body.ReadBack again.body := by
  have hline : Position.start.line = 0 + 1 := rfl
  obtain ⟨opened, lastLine, position, hagain, -, hrun⟩ :=
    document.body.moves_pieces indent 0 hsound .document hline
  have hscan := scanFrom_charsOf hseparate .start
  rw [← htext, ← List.append_nil gaps, TokenStream.scanFrom_gaps _ hgaps,
    TokenStream.scanFrom_nil] at hscan
  refine ⟨_, parse_eq_ok.mpr ⟨_, opened, lastLine, hscan, ?_, rfl⟩, hagain⟩
  exact (congrArg (Assembly.run _) (List.append_nil _)).trans hrun

section Rereadable

variable {document : Document} (hsound : ∀ part ∈ document.body.parts, part.Sound)
  (halone : ∀ part ∈ document.body.parts, part.HeredocAlone)
include hsound halone

/-- The layout of a sound document with nothing behind its heredocs is read back. -/
theorem parse_layout (indent : Nat) :
    ∃ again, Document.parse (document.layout indent) = .ok again ∧
      document.body.ReadBack again.body := by
  have htext : (document.layout indent).toList =
      charsOf (document.body.pieces indent 0) ++ [] := by
    rw [toList_layout, List.append_nil]
  refine parse_of_separate htext (by simp) hsound ?_
  exact document.body.separate_pieces indent 0
    (fun part hpart => ⟨hsound part hpart, .inl (halone part hpart)⟩) (Lexeme.startsIn_nil _)

/-- A sound document with nothing behind its heredocs is written as a document. -/
theorem parse_render (indent : Nat) :
    ∃ again, Document.parse (document.render indent) = .ok again ∧
      document.body.ReadBack again.body := by
  refine parse_of_separate (document.toList_render indent) (document.isGap_ending indent) hsound ?_
  exact document.body.separate_pieces indent 0
    (fun part hpart => ⟨hsound part hpart, .inl (halone part hpart)⟩)
    (document.atLineEnd_ending indent)

end Rereadable

/-- Printing a printable tree and parsing the text is the identity, at every indent size. -/
theorem parse_layout_of_printable {document : Document} (hprintable : document.Printable)
    (indent : Nat) :
    ∃ again, Document.parse (document.layout indent) = .ok again ∧
      again.body.plain = document.body.plain := by
  obtain ⟨again, hparse, hagain⟩ := parse_layout
    (fun part hpart => (hprintable part hpart).sound)
    (fun part hpart => (hprintable part hpart).heredocAlone) indent
  exact ⟨again, hparse, hagain.plain_eq fun part hpart => (hprintable part hpart).returnless⟩

/-- A document with a labeled block, lists on one line and on several, a heredoc, and
comments in every place. -/
def specimen : Document where
  body :=
    ⟨[⟨[.identifier "job", .quoted "web"],
        .object
          ⟨[⟨[.identifier "ports"],
              .list
                ⟨[⟨.literal ⟨.number, "80"⟩, {}⟩, ⟨.literal ⟨.float, "1.5e3"⟩, {}⟩], []⟩,
              true, { line := some "# open" }, false, none⟩,
            ⟨[.identifier "text"], .literal ⟨.heredoc, "<<EOF\nhi\n  EOF"⟩, true, {}, false, none⟩],
            ["// more"]⟩,
        false, { lead := ["/* the\njob */"] }, false, none⟩,
      ⟨[.quoted "tags"],
        .list
          ⟨[⟨.literal ⟨.string, "\"a\""⟩, { lead := ["# first"], line := some "# a" }⟩,
            ⟨.object ⟨[], []⟩, {}⟩], ["# last"]⟩,
        true, {}, false, none⟩],
      ["# end"]⟩

/-- The printable specimen is printed and read back. -/
theorem parse_layout_specimen : specimen.Printable ∧
    ∃ again, Document.parse (specimen.layout 2) = .ok again ∧
      again.body.plain = specimen.body.plain := by
  have hprintable : specimen.Printable := by decide +kernel
  exact ⟨hprintable, parse_layout_of_printable hprintable 2⟩

/-- Formatting a source with one indent and then with another is formatting it with the
other. -/
theorem layout_parse_layout {source : String} {document : Document}
    (hparse : Document.parse source = .ok document)
    (halone : ∀ part ∈ document.body.parts, part.HeredocAlone)
    (hreturn : ∀ part ∈ document.body.parts, part.Returnless) (first second : Nat) :
    ∃ again, Document.parse (document.layout first) = .ok again ∧
      again.layout second = document.layout second := by
  obtain ⟨again, hagain, hback⟩ := parse_layout (sound_of_parse hparse) halone first
  exact ⟨again, hagain, hback.layout_eq second 0 hreturn⟩

/-- A source with blank lines, a block and aligned items, formatted with four spaces and
then with two. -/
theorem layout_parse_layout_block : ∃ document,
    Document.parse "\n# x\na = 1\nbcd = [\n2 # y\n]\nb \"l\" \x7b c = 3 \x7d\n" = .ok document ∧
      ∃ again, Document.parse (document.layout 4) = .ok again ∧
        again.layout 2 = document.layout 2 := by
  obtain ⟨document, hparse, hparts⟩ := Except.exists_of_map
    (x := Document.parse "\n# x\na = 1\nbcd = [\n2 # y\n]\nb \"l\" \x7b c = 3 \x7d\n")
    (p := fun document => document.body.parts.all fun part =>
      decide (part.HeredocAlone ∧ part.Returnless)) (by decide +kernel)
  have hall (part : Part) (hpart : part ∈ document.body.parts) :=
    of_decide_eq_true (List.all_eq_true.mp hparts part hpart)
  exact ⟨document, hparse, layout_parse_layout hparse (fun part hpart => (hall part hpart).1)
    (fun part hpart => (hall part hpart).2) 4 2⟩

/-- The first heredoc with something behind it on its closing line is read on to a later
line that holds its anchor alone, and what follows that line leads to the end of a
document. -/
def Recovers (indent : Nat) (document : Document) : Prop :=
  ∃ before text behind more rest reader next,
    document.body.pieces indent 0 = before ++ .token (.literal .heredoc) text :: behind ∧
    charsOf behind ++ document.ending indent = more ++ rest ∧
    Separate False (text.toList ++ (more ++ rest)) before ∧
    (TokenKind.literal .heredoc).Spells text ∧ ¬ Lexeme.AtLineEnd (more ++ rest) ∧
    (TokenKind.literal .heredoc).Reads (text ++ String.ofList more) rest ∧
    Moves before .start reader ∧
    Moves [.token (.literal .heredoc) (text ++ String.ofList more)] reader next ∧
    next.Accepts rest

/-- A document that was read from a source is written as a document again just if nothing
is laid out behind its heredocs, or the first heredoc behind which there is something
happens to end further down. -/
theorem exists_parse_render_iff {source : String} {document : Document}
    (hparse : Document.parse source = .ok document) (indent : Nat) :
    (∃ again, Document.parse (document.render indent) = .ok again) ↔
      (∀ part ∈ document.body.parts, part.HeredocAlone) ∨ document.Recovers indent := by
  have hsound := sound_of_parse hparse
  constructor
  · intro haccepted
    rw [exists_parse_iff, toList_render] at haccepted
    -- Read laxly the layout always stays apart; the first heredoc that only a lax reader
    -- closes is where the scanner reads on.
    have hlax : Separate True (document.ending indent) (document.body.pieces indent 0) :=
      document.body.separate_pieces indent 0
        (fun part hpart => ⟨hsound part hpart, .inr trivial⟩) (document.atLineEnd_ending indent)
    rcases separate_or_open hlax with hstrict | ⟨before, text, behind, hpieces, hbefore, hspells,
      hopen⟩
    · exact .inl (document.body.heredocAlone_of_separate indent 0 hstrict)
    · rw [hpieces, charsOf_append, charsOf_token, List.append_assoc, List.append_assoc,
        Reader.accepts_charsOf hbefore] at haccepted
      obtain ⟨reader, hreader, haccepted⟩ := haccepted
      obtain ⟨more, rest, next, hsplit, hreads, hnext, haccepts⟩ :=
        (Reader.accepts_heredoc hspells).mp haccepted
      rw [hsplit] at hbefore hopen
      exact .inr ⟨before, text, behind, more, rest, reader, next, hpieces, hsplit, hbefore, hspells,
        hopen, hreads, hreader, hnext, haccepts⟩
  · rintro (halone | ⟨before, text, behind, more, rest, reader, next, hpieces, hsplit, hbefore,
      hspells, -, hreads, hreader, hnext, haccepts⟩)
    · obtain ⟨again, hagain, -⟩ := parse_render hsound halone indent
      exact ⟨again, hagain⟩
    · rw [exists_parse_iff, toList_render, hpieces, charsOf_append, charsOf_token,
        List.append_assoc, List.append_assoc, hsplit, Reader.accepts_charsOf hbefore]
      exact ⟨reader, hreader, (Reader.accepts_heredoc hspells).mpr
        ⟨more, rest, next, rfl, hreads, hnext, haccepts⟩⟩

theorem exists_heredoc_in_list : ∃ document,
    Document.parse "a = [<<EOF\nhi\nEOF\n]\n" = .ok document ∧
      ¬ ∃ again, Document.parse (document.render 2) = .ok again := by
  obtain ⟨document, hparse, hfails⟩ := Except.exists_of_map
    (x := Document.parse "a = [<<EOF\nhi\nEOF\n]\n")
    (p := fun document => !(Document.parse (document.render 2)).isOk) (by decide +kernel)
  refine ⟨document, hparse, ?_⟩
  rintro ⟨again, hagain⟩
  rw [hagain] at hfails
  cases hfails

/-- The comma behind a heredoc in a list leaves it open to the end of the text. -/
theorem not_recovers_heredoc_in_list : ∃ document,
    Document.parse "a = [<<EOF\nhi\nEOF\n]\n" = .ok document ∧
      ¬ ((∀ part ∈ document.body.parts, part.HeredocAlone) ∨ document.Recovers 2) := by
  obtain ⟨document, hparse, hfails⟩ := exists_heredoc_in_list
  exact ⟨document, hparse, fun hcases => hfails ((exists_parse_render_iff hparse 2).mpr hcases)⟩

/-- Not every document that can be read is written as a document. -/
theorem not_forall_parse_render : ¬ ∀ (source : String) (document : Document) (indent : Nat),
    Document.parse source = .ok document →
      ∃ again, Document.parse (document.render indent) = .ok again := by
  intro hall
  obtain ⟨document, hparse, hfails⟩ := exists_heredoc_in_list
  exact hfails (hall _ document 2 hparse)

end Document

end HclEditor
