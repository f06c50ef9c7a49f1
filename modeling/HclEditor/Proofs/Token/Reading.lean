import Mathlib
import HclEditor.Document.Assembly
import HclEditor.Proofs.Lexeme.Locality

/-!
# Texts that are one token

A text is read as a token of some kind in front of other text. Every token of a source is
read so, and because tokens depend on their own characters, the token of a source is also
what its text is read as alone.
-/

namespace HclEditor

namespace Position

theorem advance_append (position : Position) (first second : List Char) :
    position.advance (first ++ second) = (position.advance first).advance second :=
  List.foldl_append

@[simp] theorem advance_nil (position : Position) : position.advance [] = position :=
  rfl

theorem advance_cons (position : Position) (c : Char) (cs : List Char) :
    position.advance (c :: cs) = (position.next c).advance cs :=
  rfl

/-- Every line feed starts a line. -/
theorem line_advance (position : Position) (cs : List Char) :
    (position.advance cs).line = position.line + cs.count '\n' := by
  induction cs generalizing position with
  | nil => rfl
  | cons c cs ih =>
      rw [advance_cons, ih, List.count_cons, next]
      by_cases hc : c = '\n'
      · simp only [hc, if_true, beq_self_eq_true]
        omega
      · simp [hc]

/-- Characters that are no line feed stay on the line. -/
theorem line_advance_of_not_mem (position : Position) {cs : List Char} (hcs : '\n' ∉ cs) :
    (position.advance cs).line = position.line := by
  rw [line_advance, List.count_eq_zero_of_not_mem hcs, Nat.add_zero]

end Position

namespace Token

/-- The token that is the whole of a text. -/
def whole (kind : TokenKind) (text : String) : Token :=
  ⟨kind, text, .start, Position.start.advance text.toList⟩

end Token

namespace TokenKind

/-- Scanned alone, the text is exactly one token, of this kind, and nothing else. -/
def Spells (kind : TokenKind) (text : String) : Prop :=
  TokenStream.scan text =
    .ok ⟨[Token.whole kind text], Position.start.advance text.toList⟩

instance (kind : TokenKind) (text : String) : Decidable (kind.Spells text) :=
  inferInstanceAs (Decidable (_ = _))

/-- In front of `rest`, the text is read as a token of this kind. -/
def Reads (kind : TokenKind) (text : String) (rest : List Char) : Prop :=
  ∃ c cs, text.toList = c :: cs ∧ Lexeme.isGap c = false ∧
    Lexeme.read c (cs ++ rest) = .ok (kind, cs.length)

/-- A token that is read in front of some text is read in front of all that it ends
before. -/
theorem Reads.of_endsBefore {kind : TokenKind} {text : String} {rest tail : List Char}
    (hreads : kind.Reads text rest) (hends : kind.EndsBefore text.toList tail) :
    kind.Reads text tail := by
  obtain ⟨c, cs, htext, hgap, hread⟩ := hreads
  obtain ⟨own, behind, hsplit, hlength, hlocal⟩ := Lexeme.readsLocally hread
  have hown : own = cs := (List.append_inj_left hsplit hlength).symm
  subst hown
  rw [htext] at hends
  exact ⟨c, own, htext, hgap, hlocal tail hends⟩

end TokenKind

namespace TokenStream

@[simp] theorem scanFrom_nil (position : Position) : scanFrom position [] = .ok ⟨[], position⟩ := by
  rw [scanFrom]

theorem scanFrom_gap (position : Position) {c : Char} (hgap : Lexeme.isGap c = true)
    (cs : List Char) : scanFrom position (c :: cs) = scanFrom (position.next c) cs := by
  rw [scanFrom, if_pos hgap]

/-- Gaps are passed over. -/
theorem scanFrom_gaps (position : Position) {gaps : List Char}
    (hgaps : ∀ c ∈ gaps, Lexeme.isGap c = true) (cs : List Char) :
    scanFrom position (gaps ++ cs) = scanFrom (position.advance gaps) cs := by
  induction gaps generalizing position with
  | nil => rfl
  | cons c gaps ih =>
      rw [List.cons_append, scanFrom_gap _ (hgaps c List.mem_cons_self),
        ih _ fun d hd => hgaps d (List.mem_cons_of_mem _ hd)]
      rfl

/-- A text that is read as a token becomes one. -/
theorem scanFrom_token (position : Position) {kind : TokenKind} {text : String}
    {rest : List Char} (hreads : kind.Reads text rest) :
    scanFrom position (text.toList ++ rest) =
      (scanFrom (position.advance text.toList) rest).map
        (cons ⟨kind, text, position, position.advance text.toList⟩) := by
  obtain ⟨c, cs, htext, hgap, hread⟩ := hreads
  have hown : String.ofList (c :: cs) = text := by
    rw [← htext, String.ofList_toList]
  rw [htext, List.cons_append, scanFrom, if_neg (by simp [hgap]), hread]
  dsimp only
  rw [List.take_left, List.drop_left, hown]

/-- The tokens of a text are read in front of what follows them there. -/
theorem reads_of_scanFrom {position : Position} {cs : List Char} {stream : TokenStream}
    (hscan : scanFrom position cs = .ok stream) {token : Token} (htoken : token ∈ stream.tokens) :
    ∃ before rest, cs = before ++ (token.text.toList ++ rest) ∧
      token.kind.Reads token.text rest ∧ token.start = position.advance before ∧
      token.stop = token.start.advance token.text.toList := by
  -- Scanning goes on behind a whole token, so the induction is on the length of the text.
  induction hsize : cs.length using Nat.strong_induction_on
    generalizing cs position stream with
  | _ size ih =>
      cases cs with
      | nil =>
          rw [scanFrom_nil, Except.ok.injEq] at hscan
          subst hscan
          cases htoken
      | cons c cs =>
          rw [List.length_cons] at hsize
          by_cases hgap : Lexeme.isGap c = true
          · rw [scanFrom_gap _ hgap] at hscan
            obtain ⟨before, rest, rfl, hreads, hstart, hstop⟩ :=
              ih _ (by omega) hscan htoken rfl
            exact ⟨c :: before, rest, rfl, hreads, hstart, hstop⟩
          · rw [scanFrom, if_neg hgap] at hscan
            split at hscan
            next => cases hscan
            next kind count hread =>
              obtain ⟨own, behind, rfl, hcount, -⟩ := Lexeme.readsLocally hread
              rw [hcount, List.take_left, List.drop_left] at hscan
              dsimp only at hscan
              cases hrest : scanFrom (position.advance (c :: own)) behind with
              | error error =>
                  rw [hrest] at hscan
                  cases hscan
              | ok others =>
                  rw [hrest] at hscan
                  cases hscan
                  rcases List.mem_cons.mp htoken with rfl | htail
                  · refine ⟨[], behind, by simp, ⟨c, own, by simp, by simpa using hgap, ?_⟩, rfl,
                      by simp⟩
                    rw [hread, hcount]
                  · obtain ⟨before, rest, rfl, hreads, hstart, hstop⟩ :=
                      ih _ (by simp at hsize; omega) hrest htail rfl
                    refine ⟨c :: own ++ before, rest, by simp, hreads, ?_, hstop⟩
                    rw [Position.advance_append, hstart]

end TokenStream

namespace TokenKind

/-- A text is one token when it is read as one in front of nothing. -/
theorem spells_iff_reads {kind : TokenKind} {text : String} :
    kind.Spells text ↔ kind.Reads text [] := by
  constructor
  · intro hspells
    obtain ⟨before, rest, htext, hreads, -⟩ :=
      TokenStream.reads_of_scanFrom hspells List.mem_cons_self
    have hlength := congrArg List.length htext
    simp only [Token.whole, List.length_append] at hlength
    have hrest : rest = [] := List.eq_nil_of_length_eq_zero (by omega)
    rwa [hrest] at hreads
  · intro hreads
    have hscan := TokenStream.scanFrom_token .start hreads
    rw [List.append_nil, TokenStream.scanFrom_nil] at hscan
    exact hscan

/-- A heredoc is read up to the end of a line. -/
theorem Reads.atLineEnd {text : String} {rest : List Char}
    (hreads : (literal .heredoc).Reads text rest) : Lexeme.AtLineEnd rest := by
  obtain ⟨c, cs, -, -, hread⟩ := hreads
  obtain ⟨rfl, parts, behind, hsplit, hlength, hbehind⟩ := Lexeme.read_eq_ok_heredoc hread
  have hrest : rest = behind := by
    rw [← List.cons_append] at hsplit
    exact List.append_inj_right hsplit (by rw [hlength, List.length_cons])
  rwa [hrest]

/-- In front of `rest`, the text is read as a token of this kind, except that a lax reader
accepts a heredoc in front of anything. -/
def ReadsBefore (lax : Prop) (kind : TokenKind) (text : String) (rest : List Char) : Prop :=
  if kind = .literal .heredoc then kind.Spells text ∧ (Lexeme.AtLineEnd rest ∨ lax)
  else kind.Reads text rest

theorem Reads.readsBefore {lax : Prop} {kind : TokenKind} {text : String} {rest : List Char}
    (hreads : kind.Reads text rest) (hkind : kind ≠ .literal .heredoc) :
    kind.ReadsBefore lax text rest := by
  rwa [ReadsBefore, if_neg hkind]

theorem Spells.readsBefore {lax : Prop} {text : String} {rest : List Char}
    (hspells : (literal .heredoc).Spells text) (hrest : Lexeme.AtLineEnd rest ∨ lax) :
    (literal .heredoc).ReadsBefore lax text rest := by
  rw [ReadsBefore, if_pos rfl]
  exact ⟨hspells, hrest⟩

theorem readsBefore_iff_reads {kind : TokenKind} {text : String} {rest : List Char} :
    kind.ReadsBefore False text rest ↔ kind.Reads text rest := by
  rw [ReadsBefore, or_false]
  split
  next hkind =>
    subst hkind
    constructor
    · rintro ⟨hspells, hrest⟩
      exact (spells_iff_reads.mp hspells).of_endsBefore hrest
    · intro hreads
      exact ⟨spells_iff_reads.mpr (hreads.of_endsBefore (Lexeme.startsIn_nil _)),
        hreads.atLineEnd⟩
  next => exact Iff.rfl

end TokenKind

end HclEditor
