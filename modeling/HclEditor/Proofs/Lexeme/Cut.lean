import Mathlib
import HclEditor.Proofs.Lexeme.Locality

/-!
# Tokens of a text that is cut off

A token is read from a text that is cut off somewhere behind it as it is from the whole text. A
comment needs one more character: at the end of a text a line comment gives up a carriage
return that belongs to it in front of another one.
-/

namespace HclEditor.Lexeme

theorem atLineEnd_take {rest : List Char} (hrest : AtLineEnd rest) (n : Nat) :
    AtLineEnd (rest.take n) := by
  cases n with
  | zero => exact startsIn_nil _
  | succ n =>
      cases rest with
      | nil => exact startsIn_nil _
      | cons c rest => exact hrest

theorem OpensLineComment.take {c : Char} {cs : List Char} (hopens : OpensLineComment c cs) {n : Nat}
    (hpos : 0 < n) : OpensLineComment c (cs.take n) := by
  refine hopens.imp_right (And.imp_right fun hhead => ?_)
  rw [List.head?_take, if_neg hpos.ne', hhead]

/-- Cutting a text behind a line comment leaves the comment as it is. -/
theorem lineCommentLength_take {cs : List Char} {n : Nat} (hlt : lineCommentLength cs < n) :
    lineCommentLength (cs.take n) = lineCommentLength cs := by
  have hline : (lineRest cs).length ≤ n := by
    unfold lineCommentLength at hlt
    dsimp only at hlt
    split at hlt <;> omega
  have htake : lineRest (cs.take n) = lineRest cs := takeWhile_take hline
  rw [lineCommentLength, htake, lineCommentLength]

theorem read_take_blockComment {more : List Char} {n m : Nat}
    (hclosed : blockCommentLength? 1 more = some n) (hle : n ≤ m) :
    read '/' (('*' :: more).take m) = .ok (.comment, n) := by
  obtain ⟨text, rest, rfl, -, rfl, hall⟩ := blockCommentLength?_eq_some hclosed
  obtain ⟨m, rfl⟩ := Nat.exists_eq_add_of_le hle
  have htake : ('*' :: (text ++ rest)).take (1 + text.length + m) =
      '*' :: (text ++ rest.take m) := by
    rw [Nat.add_comm 1, Nat.add_right_comm, List.take_succ_cons, List.take_length_add_append]
  rw [htake, read, hall]

/-- Cutting a text behind a token leaves the token as it is. -/
theorem read_take {c : Char} {cs : List Char} {kind : TokenKind} {n m : Nat}
    (hread : read c cs = .ok (kind, n)) (hle : n ≤ m) (hcomment : kind = .comment → n < m) :
    read c (cs.take m) = .ok (kind, n) := by
  cases readsAs_of_read hread with
  | lineComment hopens =>
      have hlt := hcomment rfl
      rw [read_of_opensLineComment (hopens.take (Nat.zero_lt_of_lt hlt)),
        lineCommentLength_take hlt]
  | blockComment hc hcs hclosed =>
      subst hc hcs
      exact read_take_blockComment hclosed hle
  | string =>
      obtain ⟨text, rest, rfl, rfl, hall⟩ := readsLocally hread
      obtain ⟨m, rfl⟩ := Nat.exists_eq_add_of_le hle
      rw [List.take_length_add_append]
      exact hall _ trivial
  | heredoc hc hcs hclosed =>
      subst hc hcs
      obtain ⟨parts, rest, rfl, rfl, hrest⟩ := heredocLength_eq_ok hclosed
      obtain ⟨m, rfl⟩ := Nat.exists_eq_add_of_le hle
      rw [Nat.add_right_comm, List.take_succ_cons, List.take_length_add_append, read,
        parts.heredocLength_chars (atLineEnd_take hrest m)]
  | symbol hsymbol => exact read_of_symbol hsymbol _
  | digit hdigit =>
      rw [read_of_digit hdigit, ← List.take_succ_cons, unsignedNumber_take (by omega)]
  | minus hc hdigit =>
      subst hc
      rw [Option.any_eq_true] at hdigit
      obtain ⟨d, hhead, hd⟩ := hdigit
      obtain ⟨more, rfl⟩ := List.head?_eq_some_iff.mp hhead
      obtain ⟨m, rfl⟩ := Nat.exists_eq_add_one.mpr ((unsignedNumber_pos hd more).trans_le hle)
      rw [read_minus _ (by simpa using hd), unsignedNumber_take hle]
  | letter hdigit hletter => rw [read_of_letter hdigit hletter, takeWhile_take hle]

end HclEditor.Lexeme
