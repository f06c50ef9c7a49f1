import Mathlib
import HclEditor.Proofs.Token.Reading

/-!
# Texts made of tokens and gaps

A text can be given as a row of pieces, each a token or a gap. If every token is read in
front of the pieces behind it, the text is scanned into just these tokens, and what
follows the text is scanned as if it stood alone.
-/

namespace HclEditor

/-- A token with its kind and text, or the characters between two tokens. -/
inductive Piece where
  | gap (chars : List Char)
  | token (kind : TokenKind) (text : String)
deriving DecidableEq, Repr

namespace Piece

/-- The characters of pieces in a row. -/
def charsOf : List Piece → List Char
  | [] => []
  | .gap chars :: pieces => chars ++ charsOf pieces
  | .token _ text :: pieces => text.toList ++ charsOf pieces

/-- The tokens among pieces in a row that start at a position. -/
def tokensFrom (position : Position) : List Piece → List Token
  | [] => []
  | .gap chars :: pieces => tokensFrom (position.advance chars) pieces
  | .token kind text :: pieces =>
      ⟨kind, text, position, position.advance text.toList⟩ ::
        tokensFrom (position.advance text.toList) pieces

/-- In front of `rest`, the gaps hold gap characters, and every token is read in front of
what follows it. A lax reader accepts heredocs in front of anything. -/
def Separate (lax : Prop) (rest : List Char) : List Piece → Prop
  | [] => True
  | .gap chars :: pieces =>
      (∀ c ∈ chars, Lexeme.isGap c = true) ∧ Separate lax rest pieces
  | .token kind text :: pieces =>
      kind.ReadsBefore lax text (charsOf pieces ++ rest) ∧ Separate lax rest pieces

@[simp] theorem charsOf_nil : charsOf [] = [] :=
  rfl

@[simp] theorem charsOf_gap (chars : List Char) (pieces : List Piece) :
    charsOf (.gap chars :: pieces) = chars ++ charsOf pieces :=
  rfl

@[simp] theorem charsOf_token (kind : TokenKind) (text : String) (pieces : List Piece) :
    charsOf (.token kind text :: pieces) = text.toList ++ charsOf pieces :=
  rfl

@[simp] theorem charsOf_append (first second : List Piece) :
    charsOf (first ++ second) = charsOf first ++ charsOf second := by
  induction first with
  | nil => rfl
  | cons piece first ih => cases piece <;> simp [ih]

@[simp] theorem tokensFrom_nil (position : Position) : tokensFrom position [] = [] :=
  rfl

@[simp] theorem tokensFrom_gap (position : Position) (chars : List Char)
    (pieces : List Piece) :
    tokensFrom position (.gap chars :: pieces) = tokensFrom (position.advance chars) pieces :=
  rfl

@[simp] theorem tokensFrom_token (position : Position) (kind : TokenKind) (text : String)
    (pieces : List Piece) :
    tokensFrom position (.token kind text :: pieces) =
      ⟨kind, text, position, position.advance text.toList⟩ ::
        tokensFrom (position.advance text.toList) pieces :=
  rfl

theorem tokensFrom_append (position : Position) (first second : List Piece) :
    tokensFrom position (first ++ second) =
      tokensFrom position first ++ tokensFrom (position.advance (charsOf first)) second := by
  induction first generalizing position with
  | nil => rfl
  | cons piece first ih =>
      cases piece with
      | gap chars => rw [List.cons_append, tokensFrom_gap, tokensFrom_gap, charsOf_gap, ih,
          Position.advance_append]
      | token kind text => rw [List.cons_append, tokensFrom_token, tokensFrom_token,
          charsOf_token, ih, Position.advance_append, List.cons_append]

section Separate

variable {lax : Prop} {rest : List Char}

@[simp] theorem separate_nil : Separate lax rest [] :=
  trivial

@[simp] theorem separate_gap {chars : List Char} {pieces : List Piece} :
    Separate lax rest (.gap chars :: pieces) ↔
      (∀ c ∈ chars, Lexeme.isGap c = true) ∧ Separate lax rest pieces :=
  Iff.rfl

@[simp] theorem separate_token {kind : TokenKind} {text : String} {pieces : List Piece} :
    Separate lax rest (.token kind text :: pieces) ↔
      kind.ReadsBefore lax text (charsOf pieces ++ rest) ∧
        Separate lax rest pieces :=
  Iff.rfl

theorem separate_append {first second : List Piece} :
    Separate lax rest (first ++ second) ↔
      Separate lax (charsOf second ++ rest) first ∧ Separate lax rest second := by
  induction first with
  | nil => simp
  | cons piece first ih =>
      cases piece with
      | gap chars => simp [ih, and_assoc]
      | token kind text => simp [ih, and_assoc]

end Separate

/-- Separate pieces are scanned into their tokens. -/
theorem scanFrom_charsOf {rest : List Char} {pieces : List Piece}
    (hseparate : Separate False rest pieces) (position : Position) :
    TokenStream.scanFrom position (charsOf pieces ++ rest) =
      (TokenStream.scanFrom (position.advance (charsOf pieces)) rest).map fun stream =>
        { stream with tokens := tokensFrom position pieces ++ stream.tokens } := by
  induction pieces generalizing position with
  | nil =>
      cases hscan : TokenStream.scanFrom position rest <;>
        simp [hscan, Except.map]
  | cons piece pieces ih =>
      cases piece with
      | gap chars =>
          obtain ⟨hgaps, hpieces⟩ := separate_gap.mp hseparate
          rw [charsOf_gap, List.append_assoc, TokenStream.scanFrom_gaps _ hgaps, ih hpieces,
            Position.advance_append, tokensFrom_gap]
      | token kind text =>
          obtain ⟨hreads, hpieces⟩ := separate_token.mp hseparate
          rw [charsOf_token, List.append_assoc,
            TokenStream.scanFrom_token _ (TokenKind.readsBefore_iff_reads.mp hreads),
            ih hpieces, Position.advance_append, tokensFrom_token]
          cases TokenStream.scanFrom
            ((position.advance text.toList).advance (charsOf pieces)) rest <;>
            rfl

/-- Pieces with a separator between any two of them. -/
def joined (separator : List Piece) : List (List Piece) → List Piece
  | [] => []
  | [pieces] => pieces
  | pieces :: more :: others => pieces ++ separator ++ joined separator (more :: others)

theorem charsOf_joined (separator : List Piece) (groups : List (List Piece)) :
    charsOf (joined separator groups) =
      (charsOf separator).intercalate (groups.map charsOf) := by
  induction groups with
  | nil => rfl
  | cons pieces groups ih =>
      cases groups with
      | nil => simp [joined, List.intercalate]
      | cons more others =>
          rw [joined, charsOf_append, charsOf_append, ih]
          simp [List.intercalate]

end Piece

end HclEditor
