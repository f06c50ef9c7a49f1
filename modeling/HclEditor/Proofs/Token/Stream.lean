import Mathlib
import HclEditor.Proofs.Token.Reading

/-!
# The tokens of a source

Some kinds of token are spelled with one character and no other way, and the ending is the
kind of none. The lines on which the tokens of a source start and end do not decrease.
-/

namespace HclEditor

theorem Lexeme.wordKind_symbol? (word : List Char) : (wordKind word).symbol? = none := by
  rw [wordKind]
  split <;> rfl

theorem Lexeme.wordKind_ne_ending (word : List Char) : wordKind word ≠ .ending := by
  rw [wordKind]
  split <;> simp

/-- What is read is no ending, and a symbol is all of its token. -/
theorem Lexeme.read_eq_ok_symbol {c : Char} {cs : List Char} {kind : TokenKind} {n : Nat}
    (hread : read c cs = .ok (kind, n)) :
    kind ≠ .ending ∧ ∀ symbol, kind.symbol? = some symbol → c = symbol ∧ n = 0 := by
  cases readsAs_of_read hread with
  | symbol hsymbol =>
      refine ⟨?_, fun symbol hsame => ⟨Option.some.inj (hsymbol.symm.trans hsame), rfl⟩⟩
      rintro rfl
      cases hsymbol
  | letter =>
      refine ⟨wordKind_ne_ending _, ?_⟩
      intro symbol hsymbol
      rw [wordKind_symbol?] at hsymbol
      cases hsymbol
  | lineComment | blockComment | string | heredoc | digit | minus => simp [TokenKind.symbol?]

theorem TokenKind.Reads.ne_ending {kind : TokenKind} {text : String} {rest : List Char}
    (hreads : kind.Reads text rest) : kind ≠ .ending := by
  obtain ⟨c, cs, -, -, hread⟩ := hreads
  exact (Lexeme.read_eq_ok_symbol hread).1

theorem TokenKind.Reads.text_eq {kind : TokenKind} {text : String} {rest : List Char}
    (hreads : kind.Reads text rest) {symbol : Char} (hsymbol : kind.symbol? = some symbol) :
    text = String.singleton symbol := by
  obtain ⟨c, cs, htext, -, hread⟩ := hreads
  obtain ⟨rfl, hlength⟩ := (Lexeme.read_eq_ok_symbol hread).2 symbol hsymbol
  rw [List.length_eq_zero_iff.mp hlength] at htext
  rw [← String.ofList_toList (s := text), htext]
  rfl

theorem Position.line_le_advance (position : Position) (cs : List Char) :
    position.line ≤ (position.advance cs).line := by
  rw [line_advance]
  exact Nat.le_add_right _ _

namespace TokenStream

/-- From the given line on, each token starts no higher than the one before it ends. -/
def Descends : Nat → List Token → Prop
  | _, [] => True
  | line, token :: tokens =>
      line ≤ token.start.line ∧ token.start.line ≤ token.stop.line ∧
        Descends token.stop.line tokens

theorem Descends.of_le {tokens : List Token} {first second : Nat} (hle : first ≤ second)
    (hdescends : Descends second tokens) : Descends first tokens := by
  cases tokens with
  | nil => trivial
  | cons token tokens =>
      obtain ⟨hstart, hstop, hrest⟩ := hdescends
      exact ⟨hle.trans hstart, hstop, hrest⟩

theorem descends_of_scanFrom {position : Position} {cs : List Char} {stream : TokenStream}
    (hscan : scanFrom position cs = .ok stream) : Descends position.line stream.tokens := by
  fun_induction scanFrom position cs generalizing stream
  case case1 =>
    cases hscan
    trivial
  case case2 position c cs hgap ih => exact (ih hscan).of_le (position.line_le_advance [c])
  case case3 => cases hscan
  case case4 position c cs hgap kind count hread text stop ih =>
    cases hrest : scanFrom stop (cs.drop count) with
    | error error =>
        rw [hrest] at hscan
        cases hscan
    | ok others =>
        rw [hrest] at hscan
        cases hscan
        exact ⟨le_rfl, position.line_le_advance text, ih hrest⟩

end TokenStream

end HclEditor
