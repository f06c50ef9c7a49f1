import Mathlib
import HclEditor.Proofs.Lexeme.Cut
import HclEditor.Proofs.Token.Tiling

/-!
# Tokens of a slice

A slice of a source that starts with a token and stops with one is scanned into the tokens that
it was scanned into as a part of the source, except that these lie further ahead there.
-/

namespace HclEditor

/-- A token is read from a text that is cut off behind it; behind a comment something must be
left. -/
theorem TokenKind.Reads.of_append {kind : TokenKind} {text : String} {rest more : List Char}
    (hreads : kind.Reads text (rest ++ more)) (hrest : kind = .comment → rest ≠ []) :
    kind.Reads text rest := by
  obtain ⟨c, cs, htext, hgap, hread⟩ := hreads
  refine ⟨c, cs, htext, hgap, ?_⟩
  rw [← List.append_assoc] at hread
  have htake := Lexeme.read_take hread (m := (cs ++ rest).length) (by simp) fun hkind => by
    simpa [List.length_pos_iff] using hrest hkind
  rwa [List.take_left] at htake

namespace Position

/-- The place in a text of a place in the part of it that starts at `front`. -/
def behind (front position : Position) : Position where
  offset := front.offset + position.offset
  line := front.line - 1 + position.line
  column := if position.line = 1 then front.column - 1 + position.column else position.column

theorem next_behind (front : Position) {position : Position} (hline : 0 < position.line)
    (c : Char) : (front.behind position).next c = front.behind (position.next c) := by
  unfold next behind
  by_cases hc : c = '\n'
  · simp only [hc, if_true, mk.injEq]
    refine ⟨by omega, by omega, ?_⟩
    rw [if_neg (by omega)]
  · simp only [hc, if_false, mk.injEq]
    refine ⟨by omega, trivial, ?_⟩
    split <;> omega

theorem line_pos_advance {position : Position} (hline : 0 < position.line) (cs : List Char) :
    0 < (position.advance cs).line :=
  hline.trans_le (position.line_le_advance cs)

theorem advance_behind (front : Position) {position : Position} (hline : 0 < position.line)
    (cs : List Char) : (front.behind position).advance cs = front.behind (position.advance cs) := by
  induction cs generalizing position with
  | nil => rfl
  | cons c cs ih =>
      rw [advance_cons, next_behind front hline, advance_cons]
      exact ih (line_pos_advance hline [c])

/-- A text starts where the part of it starts that is all of it. -/
theorem behind_start (front : List Char) :
    (start.advance front).behind start = start.advance front := by
  rw [← locate_append front [], locate, behind]
  simp [start]

end Position

/-- The token of a text that is this token of the part that starts at `front`. -/
def Token.behind (front : Position) (token : Token) : Token :=
  { token with start := front.behind token.start, stop := front.behind token.stop }

namespace Piece

theorem tokensFrom_behind (front : Position) {position : Position} (hline : 0 < position.line)
    (pieces : List Piece) :
    tokensFrom (front.behind position) pieces =
      (tokensFrom position pieces).map (.behind front) := by
  induction pieces generalizing position with
  | nil => rfl
  | cons piece pieces ih =>
      cases piece with
      | gap chars =>
          rw [tokensFrom_gap, tokensFrom_gap, front.advance_behind hline]
          exact ih (Position.line_pos_advance hline chars)
      | token kind text =>
          rw [tokensFrom_token, tokensFrom_token, front.advance_behind hline,
            ih (Position.line_pos_advance hline text.toList)]
          rfl

theorem line_pos_of_mem {position : Position} (hline : 0 < position.line) {pieces : List Piece}
    {token : Token} (htoken : token ∈ tokensFrom position pieces) : 0 < token.stop.line := by
  induction pieces generalizing position with
  | nil => cases htoken
  | cons piece pieces ih =>
      cases piece with
      | gap chars => exact ih (Position.line_pos_advance hline chars) htoken
      | token kind text =>
          rcases List.mem_cons.mp htoken with rfl | htoken
          · exact Position.line_pos_advance hline text.toList
          · exact ih (Position.line_pos_advance hline text.toList) htoken

/-- Pieces that end with a token are still separate when what follows them is cut off. -/
theorem separate_cut {kind : TokenKind} (hkind : kind ≠ .comment) {text : String}
    {pieces : List Piece} {rest : List Char}
    (hpieces : Separate False rest (pieces ++ [.token kind text])) :
    Separate False [] (pieces ++ [.token kind text]) := by
  have hlast : kind.Reads text rest := by
    have hlast := (separate_append.mp hpieces).2
    rw [separate_token, TokenKind.readsBefore_iff_reads] at hlast
    exact hlast.1
  induction pieces with
  | nil =>
      refine separate_token.mpr ⟨TokenKind.readsBefore_iff_reads.mpr ?_, separate_nil⟩
      exact TokenKind.Reads.of_append hlast fun hcomment => absurd hcomment hkind
  | cons piece pieces ih =>
      cases piece with
      | gap chars =>
          obtain ⟨hgaps, hpieces⟩ := separate_gap.mp hpieces
          exact separate_gap.mpr ⟨hgaps, ih hpieces⟩
      | token first own =>
          obtain ⟨hreads, hpieces⟩ := separate_token.mp hpieces
          refine separate_token.mpr ⟨TokenKind.readsBefore_iff_reads.mpr ?_, ih hpieces⟩
          rw [List.append_nil]
          refine (TokenKind.readsBefore_iff_reads.mp hreads).of_append fun _ => ?_
          obtain ⟨c, cs, htext, -⟩ := hlast
          simp [htext]

/-- A token of pieces in a row is one of the pieces. -/
theorem exists_of_tokensFrom_eq {position : Position} {pieces : List Piece}
    {first second : List Token} {token : Token}
    (htokens : tokensFrom position pieces = first ++ token :: second) :
    ∃ before after, pieces = before ++ .token token.kind token.text :: after ∧
      token.start = position.advance (charsOf before) ∧
      token.stop = token.start.advance token.text.toList ∧
      tokensFrom position before = first ∧ tokensFrom token.stop after = second := by
  induction pieces generalizing position first with
  | nil => simp at htokens
  | cons piece pieces ih =>
      cases piece with
      | gap chars =>
          obtain ⟨before, after, rfl, hstart, hstop, hfirst, hsecond⟩ := ih htokens
          exact ⟨.gap chars :: before, after, rfl,
            by rw [hstart, charsOf_gap, Position.advance_append], hstop, hfirst, hsecond⟩
      | token kind text =>
          rw [tokensFrom_token] at htokens
          cases first with
          | nil =>
              obtain ⟨rfl, rfl⟩ := List.cons.inj htokens
              exact ⟨[], pieces, rfl, rfl, rfl, rfl, rfl⟩
          | cons other first =>
              rw [List.cons_append] at htokens
              obtain ⟨rfl, hrest⟩ := List.cons.inj htokens
              obtain ⟨before, after, rfl, hstart, hstop, hfirst, hsecond⟩ := ih hrest
              exact ⟨.token kind text :: before, after, rfl,
                by rw [hstart, charsOf_token, Position.advance_append], hstop,
                by rw [tokensFrom_token, hfirst], hsecond⟩

/-- Two tokens of pieces in a row cut out those of the pieces that lead from one to the other. -/
theorem exists_between {position : Position} {pieces : List Piece}
    {before own after : List Token} {first last : Token}
    (htokens : tokensFrom position pieces = before ++ (first :: own ++ last :: after)) :
    ∃ ahead head beyond, pieces = ahead ++ (head ++ [.token last.kind last.text]) ++ beyond ∧
      first.start = position.advance (charsOf ahead) ∧
      tokensFrom first.start head = first :: own ∧
      last.start = first.start.advance (charsOf head) ∧
      last.stop = last.start.advance last.text.toList := by
  rw [List.cons_append] at htokens
  obtain ⟨ahead, others, rfl, hstart, hstop, -, hothers⟩ := exists_of_tokensFrom_eq htokens
  obtain ⟨inner, beyond, rfl, hstart', hstop', hown, -⟩ := exists_of_tokensFrom_eq hothers
  refine ⟨ahead, .token first.kind first.text :: inner, beyond, by simp, hstart, ?_, ?_, hstop'⟩
  · rw [tokensFrom_token, ← hstop, hown]
  · rw [hstart', hstop, charsOf_token, Position.advance_append]

theorem scan_charsOf {pieces : List Piece} (hpieces : Separate False [] pieces) :
    TokenStream.scan (String.ofList (charsOf pieces)) =
      .ok ⟨tokensFrom .start pieces, Position.start.advance (charsOf pieces)⟩ := by
  have hscan := scanFrom_charsOf hpieces .start
  rw [List.append_nil, TokenStream.scanFrom_nil] at hscan
  rw [TokenStream.scan, String.toList_ofList, hscan]
  simp [Except.map]

end Piece

namespace TokenStream

/-- The slice of a source from the start of a token to the stop of a later one, which is no
comment, is scanned into these tokens and those between them. -/
theorem exists_slice {source : String} {stream : TokenStream} (hscan : scan source = .ok stream)
    {before own after : List Token} {first last : Token}
    (htokens : stream.tokens = before ++ (first :: own ++ last :: after))
    (hlast : last.kind ≠ .comment) :
    ∃ (front slice behind : String) (tokens : List Token) (final : Token) (stop : Position),
      source = front ++ slice ++ behind ∧
        first.start = Position.start.advance front.toList ∧
        last.stop = Position.start.advance (front ++ slice).toList ∧
        scan slice = .ok ⟨tokens ++ [final], stop⟩ ∧
        first :: own = tokens.map (.behind first.start) ∧ last = final.behind first.start ∧
        ∀ token ∈ tokens ++ [final], 0 < token.stop.line := by
  obtain ⟨pieces, hpieces, hchars, rfl⟩ := Piece.exists_of_scanFrom hscan
  obtain ⟨ahead, head, beyond, rfl, hstart, hhead, hstart', hstop'⟩ :=
    Piece.exists_between htokens
  have hseparate : Piece.Separate False [] (head ++ [.token last.kind last.text]) := by
    have hslice := (Piece.separate_append.mp (Piece.separate_append.mp hpieces).1).2
    exact Piece.separate_cut hlast hslice
  have hfront : first.start.behind .start = first.start := by
    rw [hstart, Position.behind_start]
  have hbehind (cs : List Char) :
      first.start.behind (Position.start.advance cs) = first.start.advance cs := by
    rw [← Position.advance_behind _ Nat.one_pos, hfront]
  refine ⟨String.ofList (Piece.charsOf ahead),
    String.ofList (Piece.charsOf (head ++ [.token last.kind last.text])),
    String.ofList (Piece.charsOf beyond), Piece.tokensFrom .start head,
    ⟨last.kind, last.text, Position.start.advance (Piece.charsOf head),
      (Position.start.advance (Piece.charsOf head)).advance last.text.toList⟩,
    Position.start.advance (Piece.charsOf (head ++ [.token last.kind last.text])),
    ?_, ?_, ?_, ?_, ?_, ?_, ?_⟩
  · rw [← String.toList_inj, ← hchars]
    simp
  · rw [hstart, String.toList_ofList]
  · rw [hstop', hstart', hstart]
    simp [Position.advance_append]
  · rw [Piece.scan_charsOf hseparate, Piece.tokensFrom_append]
    rfl
  · rw [← Piece.tokensFrom_behind first.start Nat.one_pos, hfront, hhead]
  · rw [Token.behind]
    simp only [← Position.advance_append, hbehind]
    rw [Position.advance_append, ← hstart', ← hstop']
  · intro token htoken
    have hpiece : token ∈ Piece.tokensFrom .start (head ++ [.token last.kind last.text]) := by
      rwa [Piece.tokensFrom_append]
    exact Piece.line_pos_of_mem Nat.one_pos hpiece

end TokenStream

end HclEditor
