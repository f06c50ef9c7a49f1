import Mathlib
import HclEditor.Proofs.Assembly.Reader
import HclEditor.Proofs.Assembly.Soundness

/-!
# Accepted texts

A reader accepts a text if that leads it to the end of a document. Pieces that stay apart
can be read off the front of the text, and so can a token.
-/

namespace HclEditor

open Piece

namespace Reader

/-- The reader at the beginning of a text. -/
def start : Reader :=
  ⟨.items .document {}, 0, .start⟩

/-- The text leads the reader to the end of a document. -/
def Accepts (reader : Reader) (text : List Char) : Prop :=
  ∃ stream opened lastLine, TokenStream.scanFrom reader.position text = .ok stream ∧
    Assembly.run ⟨reader.point, reader.lastLine⟩ stream.tokens =
      .ok ⟨.items .document opened, lastLine⟩

/-- The pieces in front of a text lead the reader to where the text is accepted. -/
theorem accepts_charsOf {pieces : List Piece} {rest : List Char}
    (hseparate : Separate False rest pieces) {before : Reader} :
    before.Accepts (charsOf pieces ++ rest) ↔
      ∃ after, Moves pieces before after ∧ after.Accepts rest := by
  rw [Accepts, scanFrom_charsOf hseparate]
  constructor
  · rintro ⟨stream, opened, lastLine, hscan, hrun⟩
    cases hrest : TokenStream.scanFrom (before.position.advance (charsOf pieces)) rest with
    | error error =>
        rw [hrest] at hscan
        cases hscan
    | ok others =>
        rw [hrest] at hscan
        cases hscan
        rw [Assembly.run_append] at hrun
        obtain ⟨⟨point, line⟩, hpieces, hothers⟩ := Except.bind_eq_ok.mp hrun
        exact ⟨⟨point, line, _⟩, ⟨rfl, hpieces⟩, others, opened, lastLine, hrest, hothers⟩
  · rintro ⟨after, ⟨hposition, hpieces⟩, others, opened, lastLine, hscan, hothers⟩
    rw [hposition] at hscan
    refine ⟨_, opened, lastLine, by rw [hscan]; rfl, ?_⟩
    rw [Assembly.run_append, hpieces]
    exact hothers

/-- A token is read off the front of a text. -/
theorem accepts_token {kind : TokenKind} {text : String} {rest : List Char}
    (hreads : kind.Reads text rest) {reader : Reader} :
    reader.Accepts (text.toList ++ rest) ↔
      ∃ next, Moves [.token kind text] reader next ∧ next.Accepts rest := by
  have hseparate : Separate False rest [.token kind text] :=
    separate_token.mpr ⟨TokenKind.readsBefore_iff_reads.mpr hreads, separate_nil⟩
  rw [← accepts_charsOf hseparate, charsOf_token, charsOf_nil, List.append_nil]

/-- What is accepted starts with a token, unless it starts with a gap. -/
theorem Accepts.exists_reads {reader : Reader} {c : Char} {cs : List Char}
    (haccepts : reader.Accepts (c :: cs)) (hgap : Lexeme.isGap c = false) :
    ∃ kind own rest, cs = own ++ rest ∧ Lexeme.read c cs = .ok (kind, own.length) := by
  obtain ⟨stream, -, -, hscan, -⟩ := haccepts
  rw [TokenStream.scanFrom, if_neg (by simp [hgap])] at hscan
  split at hscan
  next => cases hscan
  next kind count hread =>
    obtain ⟨own, rest, hcs, hcount, -⟩ := Lexeme.readsLocally hread
    exact ⟨kind, own, rest, hcs, hcount ▸ hread⟩

/-- A heredoc at the front of an accepted text is read up to a line that holds its anchor
alone: its own closing line or a later one. -/
theorem Accepts.exists_reads_heredoc {text : String}
    (hspells : (TokenKind.literal .heredoc).Spells text) {tail : List Char} {reader : Reader}
    (haccepts : reader.Accepts (text.toList ++ tail)) :
    ∃ more rest, tail = more ++ rest ∧
      (TokenKind.literal .heredoc).Reads (text ++ String.ofList more) rest := by
  obtain ⟨c, cs, htext, hgap, hread⟩ := TokenKind.spells_iff_reads.mp hspells
  obtain ⟨rfl, parts, behind, hcs, hlength, -⟩ := Lexeme.read_eq_ok_heredoc hread
  have hown : cs = '<' :: parts.chars := by
    rw [List.append_nil, ← List.cons_append] at hcs
    refine List.append_inj_left ((List.append_nil cs).trans hcs) ?_
    rw [hlength, List.length_cons]
  rw [htext, hown, List.cons_append] at haccepts
  obtain ⟨kind, own, rest, hsplit, hread'⟩ := haccepts.exists_reads hgap
  obtain ⟨rfl, reached, m, hcs', hreach, hm⟩ := Lexeme.read_less_eq_ok hread'
  rw [List.cons_append, List.cons.injEq] at hcs'
  obtain ⟨-, rfl⟩ := hcs'
  -- The token that is read is no shorter than the heredoc, so it begins with all of it.
  have hle := parts.le_heredocLength hreach
  obtain ⟨more, hmore⟩ : '<' :: parts.chars <+: own := by
    refine List.prefix_of_prefix_length_le ⟨tail, rfl⟩ ⟨rest, hsplit.symm⟩ ?_
    rw [List.length_cons, hm]
    exact Nat.succ_le_succ hle
  rw [← hmore, List.append_assoc, List.append_right_inj] at hsplit
  subst hsplit
  refine ⟨more, rest, rfl, '<', own, ?_, hgap, ?_⟩
  · rw [String.toList_append, String.toList_ofList, htext, hown, List.cons_append, hmore]
  · rwa [← hmore, List.append_assoc, hmore]

/-- A heredoc that is accepted, whatever stands behind it, ends on a line that holds its
anchor alone, perhaps a later one. -/
theorem accepts_heredoc {text : String} (hspells : (TokenKind.literal .heredoc).Spells text)
    {tail : List Char} {reader : Reader} :
    reader.Accepts (text.toList ++ tail) ↔ ∃ more rest next, tail = more ++ rest ∧
      (TokenKind.literal .heredoc).Reads (text ++ String.ofList more) rest ∧
      Moves [.token (.literal .heredoc) (text ++ String.ofList more)] reader next ∧
      next.Accepts rest := by
  constructor
  · intro haccepts
    obtain ⟨more, rest, rfl, hreads⟩ := haccepts.exists_reads_heredoc hspells
    rw [← List.append_assoc, ← String.toList_ofList (l := more), ← String.toList_append,
      accepts_token hreads] at haccepts
    obtain ⟨next, hmoves, hnext⟩ := haccepts
    exact ⟨more, rest, next, rfl, hreads, hmoves, hnext⟩
  · rintro ⟨more, rest, next, rfl, hreads, hmoves, hnext⟩
    have haccepts := (accepts_token hreads).mpr ⟨next, hmoves, hnext⟩
    rwa [String.toList_append, String.toList_ofList, List.append_assoc] at haccepts

end Reader

/-- A source is a document if the reader at its beginning accepts it. -/
theorem Document.exists_parse_iff {source : String} :
    (∃ document, Document.parse source = .ok document) ↔ Reader.start.Accepts source.toList := by
  constructor
  · rintro ⟨document, hparse⟩
    obtain ⟨stream, opened, lastLine, hscan, hrun, -⟩ := parse_eq_ok.mp hparse
    exact ⟨stream, opened, lastLine, hscan, hrun⟩
  · rintro ⟨stream, opened, lastLine, hscan, hrun⟩
    exact ⟨_, parse_eq_ok.mpr ⟨stream, opened, lastLine, hscan, hrun, rfl⟩⟩

end HclEditor
