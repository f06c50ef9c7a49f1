import Mathlib
import HclEditor.Proofs.Lexeme.Heredoc
import HclEditor.Proofs.Lexeme.Interpolation
import HclEditor.Proofs.Lexeme.Number

/-!
# Tokens are read from their own characters

How a token is read depends on its own characters, and on little of what stands behind
it: strings, block comments and marks end wherever they end, words and numbers in front
of every gap and every mark, heredocs and line comments at the end of their line.
-/

namespace HclEditor

namespace Lexeme

/-- A block comment ends where it is closed, whatever stands behind. -/
theorem blockCommentLength?_eq_some {count n : Nat} {cs : List Char}
    (hlength : blockCommentLength? count cs = some n) :
    ∃ text rest, cs = text ++ rest ∧ text.getLast? = some '/' ∧ n = count + text.length ∧
      ∀ count tail, blockCommentLength? count (text ++ tail) = some (count + text.length) := by
  induction cs generalizing count with
  | nil => cases hlength
  | cons c cs ih =>
      by_cases hclose : c = '*' ∧ cs.head? = some '/'
      · obtain ⟨rfl, hslash⟩ := hclose
        obtain ⟨rest, rfl⟩ := List.head?_eq_some_iff.mp hslash
        rw [blockCommentLength?, Option.some.injEq] at hlength
        refine ⟨['*', '/'], rest, rfl, rfl, hlength.symm, ?_⟩
        intro count tail
        rfl
      · have hopen : ∀ tail, c = '*' → cs = '/' :: tail → False := by
          rintro tail rfl rfl
          exact hclose ⟨rfl, rfl⟩
        rw [blockCommentLength?.eq_2 _ _ _ hopen] at hlength
        obtain ⟨text, rest, rfl, hlast, hn, hall⟩ := ih hlength
        have hne : text ≠ [] := by
          rintro rfl
          cases hlast
        refine ⟨c :: text, rest, rfl, ?_, ?_, ?_⟩
        · rw [List.getLast?_cons, hlast, Option.getD_some]
        · rw [hn, List.length_cons]
          omega
        · intro count tail
          have hstill : ∀ more, c = '*' → text ++ tail = '/' :: more → False := by
            rintro more hstar hslash
            obtain ⟨first, others, rfl⟩ := List.exists_cons_of_ne_nil hne
            rw [List.cons_append, List.cons.injEq] at hslash
            exact hopen _ hstar (by rw [hslash.1]; rfl)
          rw [List.cons_append, blockCommentLength?.eq_2 _ _ _ hstill, hall, List.length_cons]
          congr 1
          omega

/-- The text of a line comment is taken up to the end of its line or up to the carriage
return there, which it leaves out. -/
theorem lineCommentLength_append {text : List Char} (htext : '\n' ∉ text) {rest : List Char}
    (hrest : (AtLineEnd rest ∧ text.getLast? ≠ some '\r') ∨
      ∃ more, rest = '\r' :: more ∧ AtLineEnd more) :
    lineCommentLength (text ++ rest) = text.length := by
  rw [lineCommentLength, lineRest_append htext]
  rcases hrest with ⟨hend, hlast⟩ | ⟨more, rfl, hend⟩
  · have hnone : lineRest rest = [] := by
      simpa [lineRest] using lineRest_append_of_atLineEnd [] hend
    rw [hnone, List.append_nil, if_neg hlast]
  · have hreturn : lineRest ('\r' :: more) = ['\r'] := by
      simpa [lineRest] using lineRest_append_of_atLineEnd ['\r'] hend
    rw [hreturn, if_pos List.getLast?_concat, List.length_append, List.length_singleton,
      Nat.add_sub_cancel]

/-- The characters of a line comment hold no line feed. -/
theorem exists_of_lineCommentLength (cs : List Char) :
    ∃ text rest, cs = text ++ rest ∧ lineCommentLength cs = text.length ∧ '\n' ∉ text := by
  have hle : lineCommentLength cs ≤ (lineRest cs).length := by
    unfold lineCommentLength
    dsimp only
    split <;> omega
  have htake : cs.take (lineCommentLength cs) = (lineRest cs).take (lineCommentLength cs) := by
    rw [← List.take_append_of_le_length hle, lineRest_append_drop]
  refine ⟨cs.take (lineCommentLength cs), cs.drop (lineCommentLength cs),
    (List.take_append_drop _ _).symm, ?_, ?_⟩
  · rw [htake, List.length_take, Nat.min_eq_left hle]
  · rw [htake]
    exact fun hmem => not_mem_lineRest cs (List.mem_of_mem_take hmem)

end Lexeme

/-- The character that tokens of this kind are spelled with, if it is always the same one. -/
def TokenKind.symbol? : TokenKind → Option Char
  | .assign => some '='
  | .openBrace => some '{'
  | .closeBrace => some '}'
  | .openBracket => some '['
  | .closeBracket => some ']'
  | .comma => some ','
  | _ => none

namespace Lexeme

/-- The characters start a line comment. -/
def OpensLineComment (c : Char) (cs : List Char) : Prop :=
  c = '#' ∨ c = '/' ∧ cs.head? = some '/'

/-- The ways in which a token of some kind starts with `c`, with the number of characters
behind `c` that belong to it. -/
inductive ReadsAs (c : Char) (cs : List Char) : TokenKind → Nat → Prop where
  | lineComment (hopens : OpensLineComment c cs) : ReadsAs c cs .comment (lineCommentLength cs)
  | blockComment {more : List Char} {n : Nat} (hc : c = '/') (hcs : cs = '*' :: more)
      (hclosed : blockCommentLength? 1 more = some n) : ReadsAs c cs .comment n
  | string {n : Nat} (hc : c = '"') (hclosed : stringLength ⟨0, 0⟩ [] 0 cs = .ok n) :
      ReadsAs c cs (.literal .string) n
  | heredoc {more : List Char} {n : Nat} (hc : c = '<') (hcs : cs = '<' :: more)
      (hclosed : heredocLength more = .ok n) : ReadsAs c cs (.literal .heredoc) (n + 1)
  | symbol {kind : TokenKind} (hsymbol : kind.symbol? = some c) : ReadsAs c cs kind 0
  | digit (hdigit : c.isDigit = true) :
      ReadsAs c cs (.literal (unsignedNumber (c :: cs)).1) ((unsignedNumber (c :: cs)).2 - 1)
  | minus (hc : c = '-') (hdigit : cs.head?.any Char.isDigit = true) :
      ReadsAs c cs (.literal (unsignedNumber cs).1) (unsignedNumber cs).2
  | letter (hdigit : ¬ c.isDigit = true) (hletter : startsIdentifier c = true) :
      ReadsAs c cs (wordKind (c :: cs.takeWhile continuesIdentifier))
        (cs.takeWhile continuesIdentifier).length

theorem readsAs_of_read {c : Char} {cs : List Char} {kind : TokenKind} {n : Nat}
    (hread : read c cs = .ok (kind, n)) : ReadsAs c cs kind n := by
  rw [read.eq_def] at hread
  split at hread
  case h_1 =>
    cases hread
    exact .lineComment (.inl rfl)
  case h_2 =>
    cases hread
    exact .lineComment (.inr ⟨rfl, rfl⟩)
  case h_3 =>
    split at hread <;> cases hread
    next hclosed => exact .blockComment rfl rfl hclosed
  case h_4 =>
    cases hclosed : stringLength ⟨0, 0⟩ [] 0 cs <;> rw [hclosed] at hread <;> cases hread
    exact .string rfl hclosed
  case h_5 =>
    split at hread <;> cases hread
    next hclosed => exact .heredoc rfl rfl hclosed
  case h_12 =>
    split at hread
    next hdigit =>
      cases hread
      exact .digit hdigit
    next hdigit =>
      split at hread
      next hminus =>
        cases hread
        exact .minus hminus.1 hminus.2
      next =>
        split at hread <;> cases hread
        next hletter => exact .letter hdigit hletter
  all_goals
    cases hread
    exact .symbol rfl

theorem read_of_symbol {kind : TokenKind} {c : Char} (hsymbol : kind.symbol? = some c)
    (cs : List Char) : read c cs = .ok (kind, 0) := by
  cases kind <;> cases hsymbol <;> rfl

theorem read_of_opensLineComment {c : Char} {cs : List Char} (hopens : OpensLineComment c cs) :
    read c cs = .ok (.comment, lineCommentLength cs) := by
  rcases hopens with rfl | ⟨rfl, hhead⟩
  · rfl
  · obtain ⟨more, rfl⟩ := List.head?_eq_some_iff.mp hhead
    rfl

/-- The characters that start a token which is neither a word nor a number. -/
def openers : List Char :=
  ['#', '/', '"', '<', '=', '{', '}', '[', ']', ',']

/-- Characters that open nothing else are read as the start of a number or a word. -/
theorem read_of_not_mem_openers {c : Char} (hc : c ∉ openers) (cs : List Char) :
    read c cs =
      if c.isDigit then
        .ok (.literal (unsignedNumber (c :: cs)).1, (unsignedNumber (c :: cs)).2 - 1)
      else if c = '-' ∧ cs.head?.any Char.isDigit then
        .ok (.literal (unsignedNumber cs).1, (unsignedNumber cs).2)
      else if startsIdentifier c then
        .ok (wordKind (c :: cs.takeWhile continuesIdentifier),
          (cs.takeWhile continuesIdentifier).length)
      else .error (.unexpectedCharacter c, 0) := by
  simp only [openers, List.mem_cons, List.not_mem_nil, or_false, not_or] at hc
  rw [read.eq_12 c cs] <;> tauto

theorem not_mem_openers {c : Char}
    (hc : c.isDigit = true ∨ c = '-' ∨ startsIdentifier c = true) : c ∉ openers := by
  have hopeners : openers.all (fun c => !c.isDigit && c != '-' && !startsIdentifier c) = true := by
    decide +kernel
  intro hmem
  have hnone := List.all_eq_true.mp hopeners c hmem
  rcases hc with hdigit | rfl | hletter
  · simp [hdigit] at hnone
  · cases hnone
  · simp [hletter] at hnone

theorem read_of_digit {c : Char} (hdigit : c.isDigit = true) (cs : List Char) :
    read c cs =
      .ok (.literal (unsignedNumber (c :: cs)).1, (unsignedNumber (c :: cs)).2 - 1) := by
  rw [read_of_not_mem_openers (not_mem_openers (.inl hdigit)), if_pos hdigit]

theorem read_minus (cs : List Char) (hdigit : cs.head?.any Char.isDigit = true) :
    read '-' cs = .ok (.literal (unsignedNumber cs).1, (unsignedNumber cs).2) := by
  rw [read_of_not_mem_openers (not_mem_openers (.inr (.inl rfl))), if_neg (by decide),
    if_pos ⟨rfl, hdigit⟩]

theorem read_of_letter {c : Char} (hdigit : ¬ c.isDigit = true)
    (hletter : startsIdentifier c = true) (cs : List Char) :
    read c cs = .ok (wordKind (c :: cs.takeWhile continuesIdentifier),
      (cs.takeWhile continuesIdentifier).length) := by
  -- The dash starts an identifier nowhere, so the branch for signs stays closed.
  have hdash : c ≠ '-' := by
    rintro rfl
    exact absurd hletter (by decide +kernel)
  rw [read_of_not_mem_openers (not_mem_openers (.inr (.inr hletter))), if_neg hdigit,
    if_neg (fun hminus => hdash hminus.1), if_pos hletter]

end Lexeme

namespace TokenKind

/-- What may stand behind a token with this text for the token to end there. -/
def EndsBefore (text : List Char) (rest : List Char) : TokenKind → Prop
  | .comment => (Lexeme.AtLineEnd rest ∧ text.getLast? ≠ some '\r') ∨
      ∃ more, rest = '\r' :: more ∧ Lexeme.AtLineEnd more
  | .literal .string => True
  | .literal .heredoc => Lexeme.AtLineEnd rest
  | .literal _ => Lexeme.StartsIn Lexeme.isBreak rest
  | .identifier => Lexeme.StartsIn Lexeme.isBreak rest
  | _ => True

end TokenKind

namespace Lexeme

theorem startsIn_of_endsBefore_number {cs text rest : List Char}
    (hends : TokenKind.EndsBefore text rest (.literal (unsignedNumber cs).1)) :
    StartsIn isBreak rest := by
  rcases unsignedNumber_kind cs with hkind | hkind <;> rw [hkind] at hends <;> exact hends

theorem startsIn_of_endsBefore_word {word text rest : List Char}
    (hends : TokenKind.EndsBefore text rest (wordKind word)) : StartsIn isBreak rest := by
  unfold wordKind at hends
  split at hends <;> exact hends

/-- The first `n` of the characters behind `c` complete a token, and they do so in front of
everything that the token ends before. -/
def ReadsLocally (c : Char) (cs : List Char) (kind : TokenKind) (n : Nat) : Prop :=
  ∃ text rest, cs = text ++ rest ∧ n = text.length ∧
    ∀ tail, kind.EndsBefore (c :: text) tail → read c (text ++ tail) = .ok (kind, text.length)

/-- A number behind its first digit: the characters that belong to it make the same number
in front of every break. -/
theorem exists_unsignedNumber {d : Char} (hd : d.isDigit = true) (cs : List Char) :
    ∃ text rest, cs = text ++ rest ∧ (unsignedNumber (d :: cs)).2 = text.length + 1 ∧
      ∀ tail, StartsIn isBreak tail →
        unsignedNumber (d :: (text ++ tail)) = unsignedNumber (d :: cs) := by
  have hle := unsignedNumber_le_length (d :: cs)
  have htake := unsignedNumber_take (le_refl (unsignedNumber (d :: cs)).2)
  obtain ⟨n, hn⟩ : ∃ n, (unsignedNumber (d :: cs)).2 = n + 1 :=
    ⟨_, (Nat.succ_pred_eq_of_pos (unsignedNumber_pos hd cs)).symm⟩
  rw [hn, List.length_cons, Nat.add_le_add_iff_right] at hle
  rw [hn, List.take_succ_cons] at htake
  refine ⟨cs.take n, cs.drop n, (List.take_append_drop _ _).symm, ?_, ?_⟩
  · rw [hn, List.length_take, Nat.min_eq_left hle]
  · intro tail hbreak
    rw [← List.cons_append, unsignedNumber_append hbreak, htake]

theorem readsLocally_of_digit {c : Char} (hdigit : c.isDigit = true) (cs : List Char) :
    ReadsLocally c cs (.literal (unsignedNumber (c :: cs)).1)
      ((unsignedNumber (c :: cs)).2 - 1) := by
  obtain ⟨text, rest, rfl, hlength, hsame⟩ := exists_unsignedNumber hdigit cs
  refine ⟨text, rest, rfl, by rw [hlength, Nat.add_sub_cancel], ?_⟩
  intro tail hends
  rw [read_of_digit hdigit, hsame tail (startsIn_of_endsBefore_number hends), hlength,
    Nat.add_sub_cancel]

theorem readsLocally_minus {cs : List Char} (hdigit : cs.head?.any Char.isDigit = true) :
    ReadsLocally '-' cs (.literal (unsignedNumber cs).1) (unsignedNumber cs).2 := by
  rw [Option.any_eq_true] at hdigit
  obtain ⟨d, hhead, hd⟩ := hdigit
  obtain ⟨more, rfl⟩ := List.head?_eq_some_iff.mp hhead
  obtain ⟨text, rest, rfl, hlength, hsame⟩ := exists_unsignedNumber hd more
  refine ⟨d :: text, rest, rfl, hlength, ?_⟩
  intro tail hends
  rw [read_minus (d :: text ++ tail) hd, List.cons_append,
    hsame tail (startsIn_of_endsBefore_number hends), hlength, List.length_cons]

theorem readsLocally_of_letter {c : Char} (hdigit : ¬ c.isDigit = true)
    (hletter : startsIdentifier c = true) (cs : List Char) :
    ReadsLocally c cs (wordKind (c :: cs.takeWhile continuesIdentifier))
      (cs.takeWhile continuesIdentifier).length := by
  refine ⟨_, _, List.takeWhile_append_dropWhile.symm, rfl, ?_⟩
  intro tail hends
  have hbreak := startsIn_of_endsBefore_word hends
  rw [read_of_letter hdigit hletter,
    takeWhile_append_of_startsIn continuesIdentifier_of_isBreak _ hbreak, takeWhile_take_run]

theorem OpensLineComment.append {c : Char} {cs : List Char} (hopens : OpensLineComment c cs)
    (rest : List Char) : OpensLineComment c (cs ++ rest) := by
  refine hopens.imp_right (And.imp_right fun hhead => ?_)
  rw [List.head?_append, hhead, Option.some_or]

/-- The second slash of a line comment belongs to it. -/
theorem lineCommentLength_slash_pos (cs : List Char) : 0 < lineCommentLength ('/' :: cs) := by
  have hline : lineRest ('/' :: cs) = '/' :: lineRest cs := by simp [lineRest]
  rw [lineCommentLength, hline]
  split
  next hlast =>
    cases hrest : lineRest cs with
    | nil => simp [hrest] at hlast
    | cons c more => simp
  next => simp

/-- What a line comment starts with belongs to it. -/
theorem OpensLineComment.of_append {c : Char} {text rest : List Char}
    (hopens : OpensLineComment c (text ++ rest))
    (hlength : lineCommentLength (text ++ rest) = text.length) : OpensLineComment c text := by
  refine hopens.imp_right (And.imp_right fun hhead => ?_)
  cases text with
  | nil =>
      obtain ⟨more, hcs⟩ := List.head?_eq_some_iff.mp hhead
      have hpositive := lineCommentLength_slash_pos more
      rw [hcs] at hlength
      rw [hlength] at hpositive
      cases hpositive
  | cons d text => exact hhead

/-- A line comment is read again in front of the end of its line. -/
theorem readsLocally_of_opensLineComment {c : Char} {cs : List Char}
    (hopens : OpensLineComment c cs) : ReadsLocally c cs .comment (lineCommentLength cs) := by
  obtain ⟨text, rest, rfl, hlength, hline⟩ := exists_of_lineCommentLength cs
  refine ⟨text, rest, rfl, hlength, ?_⟩
  intro tail hends
  have hbehind : (AtLineEnd tail ∧ text.getLast? ≠ some '\r') ∨
      ∃ more, tail = '\r' :: more ∧ AtLineEnd more := by
    refine hends.imp_left (And.imp_right fun hlast heq => hlast ?_)
    rw [List.getLast?_cons, heq, Option.getD_some]
  rw [read_of_opensLineComment ((hopens.of_append hlength).append tail),
    lineCommentLength_append hline hbehind]

theorem readsLocally_blockComment {more : List Char} {n : Nat}
    (hclosed : blockCommentLength? 1 more = some n) :
    ReadsLocally '/' ('*' :: more) .comment n := by
  obtain ⟨text, rest, rfl, -, hn, hall⟩ := blockCommentLength?_eq_some hclosed
  refine ⟨'*' :: text, rest, rfl, by rw [hn, List.length_cons, Nat.add_comm], ?_⟩
  intro tail _
  rw [List.cons_append, read, hall, List.length_cons, Nat.add_comm]

theorem readsLocally_heredoc {more : List Char} {n : Nat} (hclosed : heredocLength more = .ok n) :
    ReadsLocally '<' ('<' :: more) (.literal .heredoc) (n + 1) := by
  obtain ⟨parts, rest, rfl, rfl, -⟩ := heredocLength_eq_ok hclosed
  refine ⟨'<' :: parts.chars, rest, rfl, rfl, ?_⟩
  intro tail hends
  rw [List.cons_append, read, parts.heredocLength_chars hends, List.length_cons]

theorem readsLocally_string {cs : List Char} {n : Nat}
    (hclosed : stringLength ⟨0, 0⟩ [] 0 cs = .ok n) :
    ReadsLocally '"' cs (.literal .string) n := by
  obtain ⟨text, rest, rfl, htext, rfl⟩ := stringLength_eq_ok_iff.mp hclosed
  refine ⟨text ++ ['"'], rest, by simp, by simp, ?_⟩
  intro tail _
  rw [List.append_assoc, List.singleton_append, read, stringLength_quotedText htext,
    List.length_append]
  rfl

/-- A token is read again in front of everything that it ends before. -/
theorem readsLocally {c : Char} {cs : List Char} {kind : TokenKind} {n : Nat}
    (hread : read c cs = .ok (kind, n)) : ReadsLocally c cs kind n := by
  cases readsAs_of_read hread with
  | lineComment hopens => exact readsLocally_of_opensLineComment hopens
  | blockComment hc hcs hclosed =>
      subst hc hcs
      exact readsLocally_blockComment hclosed
  | string hc hclosed =>
      subst hc
      exact readsLocally_string hclosed
  | heredoc hc hcs hclosed =>
      subst hc hcs
      exact readsLocally_heredoc hclosed
  | symbol hsymbol => exact ⟨[], cs, rfl, rfl, fun tail _ => read_of_symbol hsymbol tail⟩
  | digit hdigit => exact readsLocally_of_digit hdigit cs
  | minus hc hdigit =>
      subst hc
      exact readsLocally_minus hdigit
  | letter hdigit hletter => exact readsLocally_of_letter hdigit hletter cs

theorem wordKind_ne_comment (word : List Char) : wordKind word ≠ .comment := by
  unfold wordKind
  split <;> simp

theorem wordKind_ne_heredoc (word : List Char) : wordKind word ≠ .literal .heredoc := by
  unfold wordKind
  split <;> simp

theorem symbol?_ne_angle (kind : TokenKind) : kind.symbol? ≠ some '<' := by
  cases kind <;> simp [TokenKind.symbol?]

/-- An angle bracket opens a heredoc and nothing else. -/
theorem read_less_eq_ok {cs : List Char} {kind : TokenKind} {n : Nat}
    (hread : read '<' cs = .ok (kind, n)) :
    kind = .literal .heredoc ∧
      ∃ more m, cs = '<' :: more ∧ heredocLength more = .ok m ∧ n = m + 1 := by
  have hletter : startsIdentifier '<' = false := by decide +kernel
  cases readsAs_of_read hread with
  | heredoc _ hcs hclosed => exact ⟨rfl, _, _, hcs, hclosed, rfl⟩
  | lineComment hopens => simp [OpensLineComment] at hopens
  | symbol hsymbol => exact absurd hsymbol (symbol?_ne_angle kind)
  | letter _ hletter' => simp [hletter] at hletter'
  | digit hdigit => cases hdigit
  | blockComment hc | string hc | minus hc => simp at hc

/-- Every heredoc opens with two angle brackets, and the end of its line stands behind it. -/
theorem read_eq_ok_heredoc {c : Char} {cs : List Char} {n : Nat}
    (hread : read c cs = .ok (.literal .heredoc, n)) :
    c = '<' ∧ ∃ (parts : HeredocParts) (rest : List Char),
      cs = '<' :: (parts.chars ++ rest) ∧ n = parts.chars.length + 1 ∧ AtLineEnd rest := by
  have hnumber (cs : List Char) : (unsignedNumber cs).1 ≠ .heredoc := by
    rcases unsignedNumber_kind cs with hkind | hkind <;> rw [hkind] <;> simp
  obtain ⟨kind, hkind⟩ : ∃ kind, kind = TokenKind.literal .heredoc := ⟨_, rfl⟩
  rw [← hkind] at hread
  cases readsAs_of_read hread with
  | heredoc hc hcs hclosed =>
      subst hc hcs
      obtain ⟨parts, rest, rfl, rfl, hrest⟩ := heredocLength_eq_ok hclosed
      exact ⟨rfl, parts, rest, rfl, rfl, hrest⟩
  | symbol hsymbol =>
      rw [hkind] at hsymbol
      cases hsymbol
  | digit | minus => exact absurd (TokenKind.literal.inj hkind) (hnumber _)
  | letter => exact absurd hkind (wordKind_ne_heredoc _)
  | lineComment | blockComment | string => cases hkind

/-- A comment is a line comment or a block comment. -/
theorem read_eq_ok_comment {c : Char} {cs : List Char} {n : Nat}
    (hread : read c cs = .ok (.comment, n)) :
    (OpensLineComment c cs ∧ n = lineCommentLength cs) ∨
      c = '/' ∧ ∃ more, cs = '*' :: more ∧ blockCommentLength? 1 more = some n := by
  obtain ⟨kind, hkind⟩ : ∃ kind, kind = TokenKind.comment := ⟨_, rfl⟩
  rw [← hkind] at hread
  cases readsAs_of_read hread with
  | lineComment hopens => exact .inl ⟨hopens, rfl⟩
  | blockComment hc hcs hclosed => exact .inr ⟨hc, _, hcs, hclosed⟩
  | symbol hsymbol =>
      rw [hkind] at hsymbol
      cases hsymbol
  | letter => exact absurd hkind (wordKind_ne_comment _)
  | string | heredoc | digit | minus => cases hkind

/-- A comment that ends with a carriage return is a line comment, and the same comment
without it is read in front of the carriage return. -/
theorem read_comment_return {c : Char} {own rest : List Char}
    (hread : read c (own ++ '\r' :: rest) = .ok (.comment, own.length + 1)) {more : List Char}
    (hmore : AtLineEnd more) : read c (own ++ '\r' :: more) = .ok (.comment, own.length) := by
  have hsplit : own ++ '\r' :: rest = (own ++ ['\r']) ++ rest := by simp
  have hcount : own.length + 1 = (own ++ ['\r']).length := by simp
  rw [hsplit, hcount] at hread
  rcases read_eq_ok_comment hread with ⟨hopens, hlength⟩ | ⟨rfl, block, hcs, hblock⟩
  · have hopens := hopens.of_append hlength.symm
    obtain ⟨text, behind, happend, hn, hline⟩ :=
      exists_of_lineCommentLength ((own ++ ['\r']) ++ rest)
    have htext : text = own ++ ['\r'] :=
      (List.append_inj_left happend (hlength.trans hn)).symm
    rw [htext] at hline
    have hline' : '\n' ∉ own := fun hmem => hline (List.mem_append_left _ hmem)
    have hown : OpensLineComment c (own ++ '\r' :: more) := by
      rw [← List.singleton_append, ← List.append_assoc]
      exact hopens.append more
    rw [read_of_opensLineComment hown, lineCommentLength_append hline' (.inr ⟨more, rfl, hmore⟩)]
  · obtain ⟨text, behind, rfl, hlast, hn, -⟩ := blockCommentLength?_eq_some hblock
    have htext : own ++ ['\r'] = '*' :: text := by
      refine List.append_inj_left (hcs.trans (List.cons_append ..).symm) ?_
      rw [hn, List.length_cons, Nat.add_comm]
    have hslash := congrArg List.getLast? htext
    rw [List.getLast?_concat, List.getLast?_cons, hlast, Option.getD_some] at hslash
    cases hslash

/-- Alone, no comment ends with a carriage return. -/
theorem read_comment_ne_return {c : Char} (own : List Char) :
    read c (own ++ ['\r']) ≠ .ok (.comment, own.length + 1) := by
  intro hread
  have hshort := read_comment_return hread (startsIn_nil _)
  rw [hread, Except.ok.injEq, Prod.mk.injEq] at hshort
  omega

end Lexeme

end HclEditor
