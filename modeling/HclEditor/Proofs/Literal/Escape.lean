import Mathlib
import HclEditor.Literal.Content
import HclEditor.Proofs.Number.Integer
import HclEditor.Proofs.Token.Reading

/-!
# Escapes in strings

A string stands for the text between its quotes with its escapes decoded one after the other,
from the left. Behind a backslash with `u` the decoder always takes four characters at once. If
these are not four digits it may still take fewer digits, or a plus sign and digits, for a code;
otherwise it copies them without decoding what is among them. Where neither makes a difference,
a string is decoded as if each of its escapes stood alone.
-/

namespace HclEditor

namespace Literal

open Number

/-- The character that a backslash with the mark stands for. -/
def escaped? : Char → Option Char
  | 'n' => some '\n'
  | 't' => some '\t'
  | 'r' => some '\r'
  | '"' => some '"'
  | '\\' => some '\\'
  | _ => none

/-- The text starts with four hexadecimal digits that denote the code of the character. -/
def CodeAhead (text : List Char) (c : Char) (rest : List Char) : Prop :=
  ∃ digits, digits.length = 4 ∧ text = digits ++ rest ∧ Denotes 16 digits c.toNat

/-- The characters are a code for the character, but not of four digits. -/
def ShortCode (ahead : List Char) (c : Char) : Prop :=
  ∃ digits, digits ≠ [] ∧ Denotes 16 digits c.toNat ∧
    (ahead = digits ∧ digits.length < 4 ∨ ahead = '+' :: digits)

/-- The first character or escape of a text, what it stands for, and the rest of the text. -/
inductive Sequence : List Char → List Char → List Char → Prop
  | plain {c : Char} {rest : List Char} (hc : c ≠ '\\') : Sequence (c :: rest) [c] rest
  | mark {m c : Char} {rest : List Char} (hmark : escaped? m = some c) :
      Sequence ('\\' :: m :: rest) [c] rest
  | code {c : Char} {more rest : List Char} (hcode : CodeAhead more c rest) :
      Sequence ('\\' :: 'u' :: more) [c] rest
  | copied {m : Char} {rest : List Char} (hmark : escaped? m = none)
      (hcode : m = 'u' → ∀ c after, ¬ CodeAhead rest c after) :
      Sequence ('\\' :: m :: rest) ['\\', m] rest
  | last : Sequence ['\\'] ['\\'] []

/-- A place where four characters are taken at once with an effect on what they stand for:
they are taken for a code that is none, or copied with the escapes among them. -/
inductive Lapse : List Char → List Char → List Char → Prop
  | short {c : Char} {more : List Char} (hcode : ShortCode (more.take 4) c) :
      Lapse ('\\' :: 'u' :: more) [c] (more.drop 4)
  | skipped {more : List Char} (hcode : ∀ c, ¬ ShortCode (more.take 4) c)
      (hescape : '\\' ∈ more.take 4) :
      Lapse ('\\' :: 'u' :: more) ('\\' :: 'u' :: more.take 4) (more.drop 4)

/-- A lapse, or a character or escape where there is none. -/
def SequenceOrLapse (text meaning rest : List Char) : Prop :=
  Lapse text meaning rest ∨
    Sequence text meaning rest ∧ ∀ meaning' rest', ¬ Lapse text meaning' rest'

/-- Step by step, the text is decoded up to the rest. -/
inductive Decodes (Step : List Char → List Char → List Char → Prop) :
    List Char → List Char → List Char → Prop
  | none {text : List Char} : Decodes Step text [] text
  | next {text meaning more out rest : List Char} (hstep : Step text meaning more)
      (hmore : Decodes Step more out rest) : Decodes Step text (meaning ++ out) rest

section Code

variable {c : Char} {ahead more rest : List Char}

/-- Digits that denote the code of a character are read as this character, also behind a plus
sign. -/
theorem charOfHex?_eq_some_iff : charOfHex? ahead = some c ↔
    ∃ digits, digits ≠ [] ∧ Denotes 16 digits c.toNat ∧
      (ahead = digits ∨ ahead = '+' :: digits) := by
  rw [charOfHex?]
  constructor
  · intro hchar
    split at hchar
    · cases hchar
    next hminus =>
      split at hchar
      next value hread =>
        obtain ⟨negative, digits, number, hsigned, hdigits, hnumber, rfl, -⟩ :=
          (readInteger_eq_ok_iff (by norm_num) le_rfl).mp hread
        have hcode : negative = false → number = c.toNat := by
          rintro rfl
          rw [Option.ite_none_right_eq_some, Option.some.injEq] at hchar
          obtain ⟨hvalid, rfl⟩ := hchar
          rw [Char.toNat_ofNat, if_pos hvalid]
          rfl
        refine ⟨digits, hdigits, ?_⟩
        cases hsigned with
        | bare => exact ⟨hcode rfl ▸ hnumber, .inl rfl⟩
        | plus => exact ⟨hcode rfl ▸ hnumber, .inr rfl⟩
        | minus => exact absurd rfl hminus
      next => cases hchar
  · rintro ⟨digits, hdigits, hnumber, hahead⟩
    obtain ⟨d, more, rfl⟩ := List.exists_cons_of_ne_nil hdigits
    have hhead : ahead.head? ≠ some '-' := by
      rcases hahead with rfl | rfl
      · simpa using (hnumber.head?_ne le_rfl).1
      · simp
    have hsigned : Signed (d :: more) false ahead := by
      rcases hahead with rfl | rfl
      · exact .bare
      · exact .plus
    have hless : c.toNat < 2 ^ 63 := c.val.toNat_lt.trans (by norm_num)
    have hrange : InRange (signed false c.toNat) := inRange_signed.mpr (.inl hless)
    have hread : readInteger 16 ahead = .ok (signed false c.toNat) :=
      (readInteger_eq_ok_iff (by norm_num) le_rfl).mpr
        ⟨false, d :: more, c.toNat, hsigned, hdigits, hnumber, rfl, hrange⟩
    have hvalid : (signed false c.toNat).toNat.isValidChar := c.valid
    rw [if_neg hhead, hread]
    dsimp only
    rw [if_pos hvalid]
    exact congrArg some (Char.ofNat_toNat c)

theorem CodeAhead.eq_drop (hcode : CodeAhead more c rest) : rest = more.drop 4 := by
  obtain ⟨digits, hlength, rfl, -⟩ := hcode
  rw [← hlength, List.drop_left]

theorem CodeAhead.charOfHex? (hcode : CodeAhead more c rest) :
    charOfHex? (more.take 4) = some c := by
  obtain ⟨digits, hlength, rfl, hnumber⟩ := hcode
  rw [← hlength, List.take_left, charOfHex?_eq_some_iff]
  refine ⟨digits, ?_, hnumber, .inl rfl⟩
  rintro rfl
  cases hlength

/-- No backslash is among four digits. -/
theorem CodeAhead.not_mem (hcode : CodeAhead more c rest) : '\\' ∉ more.take 4 := by
  obtain ⟨digits, hlength, rfl, hnumber⟩ := hcode
  rw [← hlength, List.take_left]
  intro hmem
  obtain ⟨digit, hdigit⟩ := hnumber.isDigit hmem
  exact hdigit.ne le_rfl (by decide) rfl

theorem ShortCode.charOfHex? (hcode : ShortCode ahead c) : charOfHex? ahead = some c := by
  obtain ⟨digits, hdigits, hnumber, hahead⟩ := hcode
  exact charOfHex?_eq_some_iff.mpr ⟨digits, hdigits, hnumber, hahead.imp_left And.left⟩

/-- Four characters that are read as a code are digits or a short code. -/
theorem codeAhead_or_shortCode (hchar : charOfHex? (more.take 4) = some c) :
    CodeAhead more c (more.drop 4) ∨ ShortCode (more.take 4) c := by
  obtain ⟨digits, hdigits, hnumber, hahead⟩ := charOfHex?_eq_some_iff.mp hchar
  rcases hahead with hahead | hahead
  · have hlength : digits.length ≤ 4 := by
      rw [← hahead]
      exact List.length_take_le 4 more
    rcases hlength.lt_or_eq with hless | hfour
    · exact .inr ⟨digits, hdigits, hnumber, .inl ⟨hahead, hless⟩⟩
    · exact .inl ⟨digits, hfour, by rw [← hahead, List.take_append_drop], hnumber⟩
  · exact .inr ⟨digits, hdigits, hnumber, .inr hahead⟩

theorem charOfHex?_eq_none (hcode : ∀ c, ¬ CodeAhead more c (more.drop 4))
    (hshort : ∀ c, ¬ ShortCode (more.take 4) c) : charOfHex? (more.take 4) = none := by
  rw [Option.eq_none_iff_forall_ne_some]
  intro c hchar
  exact (codeAhead_or_shortCode hchar).elim (hcode c) (hshort c)

end Code

section Unescape

variable {text meaning more out rest : List Char}

theorem unescape_cons_of_ne {c : Char} (hc : c ≠ '\\') :
    unescape (c :: more) = c :: unescape more := by
  rw [unescape] <;> simp [hc]

/-- Without a backslash among them characters are copied. -/
theorem unescape_append {ahead : List Char} (hahead : '\\' ∉ ahead) (rest : List Char) :
    unescape (ahead ++ rest) = ahead ++ unescape rest := by
  induction ahead with
  | nil => rfl
  | cons c cs ih =>
      rw [List.mem_cons, not_or] at hahead
      rw [List.cons_append, unescape_cons_of_ne (Ne.symm hahead.1), ih hahead.2, List.cons_append]

theorem unescape_of_mark {m c : Char} (hmark : escaped? m = some c) :
    unescape ('\\' :: m :: rest) = c :: unescape rest := by
  unfold escaped? at hmark
  split at hmark <;> cases hmark <;> rw [unescape]

theorem unescape_of_copied {m : Char} (hmark : escaped? m = none) (hm : m ≠ 'u') :
    unescape ('\\' :: m :: rest) = '\\' :: m :: unescape rest := by
  have hbackslash : m ≠ '\\' := by
    rintro rfl
    cases hmark
  rw [unescape, unescape_cons_of_ne hbackslash]
  all_goals
    rintro cs - heq
    obtain ⟨rfl, -⟩ := List.cons.inj heq
    first
    | exact hm rfl
    | cases hmark

theorem unescape_of_charOfHex? {c : Char} (hchar : charOfHex? (more.take 4) = some c) :
    unescape ('\\' :: 'u' :: more) = c :: unescape (more.drop 4) := by
  rw [unescape, hchar]

theorem unescape_of_charOfHex?_eq_none (hchar : charOfHex? (more.take 4) = none) :
    unescape ('\\' :: 'u' :: more) = '\\' :: 'u' :: more.take 4 ++ unescape (more.drop 4) := by
  rw [unescape, hchar]
  rfl

/-- If no escape is among the four characters, copying them is decoding them one by one. -/
theorem unescape_of_copied_code (hchar : charOfHex? (more.take 4) = none)
    (hescape : '\\' ∉ more.take 4) :
    unescape ('\\' :: 'u' :: more) = '\\' :: 'u' :: unescape more := by
  calc unescape ('\\' :: 'u' :: more)
      = '\\' :: 'u' :: (more.take 4 ++ unescape (more.drop 4)) :=
        unescape_of_charOfHex?_eq_none hchar
    _ = '\\' :: 'u' :: unescape (more.take 4 ++ more.drop 4) := by rw [unescape_append hescape]
    _ = '\\' :: 'u' :: unescape more := by rw [List.take_append_drop]

theorem Lapse.unescape (hlapse : Lapse text meaning rest) :
    unescape text = meaning ++ unescape rest := by
  cases hlapse with
  | short hcode => exact unescape_of_charOfHex? hcode.charOfHex?
  | @skipped more hcode hescape =>
      apply unescape_of_charOfHex?_eq_none
      exact charOfHex?_eq_none (fun c hahead => hahead.not_mem hescape) hcode

/-- Every step of the decoder is a lapse, or a character or escape that stands alone. -/
theorem SequenceOrLapse.unescape (hstep : SequenceOrLapse text meaning rest) :
    unescape text = meaning ++ unescape rest := by
  rcases hstep with hlapse | ⟨hsequence, hlapse⟩
  · exact hlapse.unescape
  cases hsequence with
  | plain hc => exact unescape_cons_of_ne hc
  | mark hmark => exact unescape_of_mark hmark
  | code hcode =>
      rw [hcode.eq_drop]
      exact unescape_of_charOfHex? hcode.charOfHex?
  | last => rw [Literal.unescape, Literal.unescape] <;> simp
  | @copied m _ hmark hcode =>
      by_cases hm : m = 'u'
      · subst hm
        have hshort (c : Char) : ¬ ShortCode (rest.take 4) c := fun hshort =>
          hlapse _ _ (.short hshort)
        have hescape : '\\' ∉ rest.take 4 := fun hescape =>
          hlapse _ _ (.skipped hshort hescape)
        exact unescape_of_copied_code (charOfHex?_eq_none (fun c => hcode rfl c _) hshort) hescape
      · exact unescape_of_copied hmark hm

/-- Every text but the empty one starts with a character or an escape. -/
theorem exists_sequence (c : Char) (cs : List Char) :
    ∃ meaning rest, Sequence (c :: cs) meaning rest := by
  by_cases hc : c = '\\'
  · subst hc
    rcases cs with _ | ⟨m, rest⟩
    · exact ⟨_, _, .last⟩
    cases hmark : escaped? m with
    | some c => exact ⟨_, _, .mark hmark⟩
    | none =>
        by_cases hcode : m = 'u' ∧ ∃ c after, CodeAhead rest c after
        · obtain ⟨rfl, c, after, hcode⟩ := hcode
          exact ⟨_, _, .code hcode⟩
        · refine ⟨_, _, .copied hmark ?_⟩
          rintro rfl c after hahead
          exact hcode ⟨rfl, c, after, hahead⟩
  · exact ⟨_, _, .plain hc⟩

theorem exists_sequenceOrLapse (c : Char) (cs : List Char) :
    ∃ meaning rest, SequenceOrLapse (c :: cs) meaning rest := by
  by_cases hlapse : ∃ meaning rest, Lapse (c :: cs) meaning rest
  · obtain ⟨meaning, rest, hlapse⟩ := hlapse
    exact ⟨meaning, rest, .inl hlapse⟩
  · obtain ⟨meaning, rest, hsequence⟩ := exists_sequence c cs
    exact ⟨meaning, rest, .inr ⟨hsequence, fun _ _ hstep => hlapse ⟨_, _, hstep⟩⟩⟩

theorem SequenceOrLapse.length_lt (hstep : SequenceOrLapse text meaning rest) :
    rest.length < text.length := by
  rcases hstep with (_ | _) | ⟨hsequence, -⟩
  · simp only [List.length_cons, List.length_drop]
    omega
  · simp only [List.length_cons, List.length_drop]
    omega
  · cases hsequence with
    | plain | mark | copied | last => simp
    | code hcode =>
        rw [hcode.eq_drop]
        simp only [List.length_cons, List.length_drop]
        omega

theorem Decodes.unescape (hdecodes : Decodes SequenceOrLapse text out rest) :
    Literal.unescape text = out ++ Literal.unescape rest := by
  induction hdecodes with
  | none => rfl
  | next hstep _ ih => rw [hstep.unescape, ih, List.append_assoc]

/-- Texts are decoded with their lapses. -/
theorem decodes_unescape (text : List Char) : Decodes SequenceOrLapse text (unescape text) [] := by
  induction hlength : text.length using Nat.strong_induction_on generalizing text with
  | _ n ih =>
      rcases text with _ | ⟨c, cs⟩
      · rw [Literal.unescape]
        exact .none
      obtain ⟨meaning, rest, hstep⟩ := exists_sequenceOrLapse c cs
      rw [hstep.unescape]
      exact .next hstep (ih _ (hlength ▸ hstep.length_lt) rest rfl)

/-- No place that is reached by decoding one escape after the other is a lapse. -/
def Regular (text : List Char) : Prop :=
  ∀ out place, Decodes Sequence text out place → ∀ meaning rest, ¬ Lapse place meaning rest

theorem Regular.of_sequence (hregular : Regular text) (hstep : Sequence text meaning rest) :
    Regular rest :=
  fun _ _ hdecodes => hregular _ _ (.next hstep hdecodes)

/-- Without a lapse every escape of a text is decoded alone. -/
theorem Regular.decodes_iff (hregular : Regular text) :
    Decodes Sequence text out rest ↔ Decodes SequenceOrLapse text out rest := by
  constructor
  · intro hdecodes
    induction hdecodes with
    | none => exact .none
    | next hstep _ ih =>
        exact .next (.inr ⟨hstep, hregular _ _ .none⟩) (ih (hregular.of_sequence hstep))
  · intro hdecodes
    induction hdecodes with
    | none => exact .none
    | next hstep _ ih =>
        rcases hstep with hlapse | ⟨hsequence, -⟩
        · exact absurd hlapse (hregular _ _ .none _ _)
        · exact .next hsequence (ih (hregular.of_sequence hsequence))

end Unescape

/-- A string has a quote at either end. -/
theorem exists_inner_of_spells {text : String}
    (hspells : (TokenKind.literal .string).Spells text) :
    ∃ inner, text.toList = '"' :: (inner ++ ['"']) := by
  obtain ⟨c, cs, htext, -, hread⟩ := TokenKind.spells_iff_reads.mp hspells
  rw [List.append_nil] at hread
  generalize htoken : TokenKind.literal .string = token at hread
  generalize hlength : cs.length = n at hread
  have hnumber (cs : List Char) : (Lexeme.unsignedNumber cs).1 ≠ .string := by
    rcases Lexeme.unsignedNumber_kind cs with hkind | hkind <;> rw [hkind] <;> simp
  cases Lexeme.readsAs_of_read hread with
  | string hc hclosed =>
      subst hc
      obtain ⟨inner, rest, rfl, -, rfl⟩ := Lexeme.stringLength_eq_ok_iff.mp hclosed
      rw [List.length_append, List.length_cons] at hlength
      obtain rfl : rest = [] := List.eq_nil_of_length_eq_zero (by omega)
      exact ⟨inner, htext⟩
  | digit | minus => exact absurd (TokenKind.literal.inj htoken).symm (hnumber _)
  | symbol hsymbol =>
      subst htoken
      cases hsymbol
  | letter =>
      unfold Lexeme.wordKind at htoken
      split at htoken <;> cases htoken
  | lineComment | blockComment | heredoc => cases htoken

theorem toList_content_string {text : String} {inner : List Char}
    (htext : text.toList = '"' :: (inner ++ ['"'])) :
    (content ⟨.string, text⟩).toList = unescape inner := by
  have hunquote : unquote text.toList = inner := by
    rw [htext, unquote, List.getLast?_concat, if_pos rfl, List.dropLast_concat]
  rw [content]
  dsimp only
  rw [stringContent, hunquote, String.toList_ofList]

/-- What a string says is found between its quotes, where it is decoded from the left. At
every place the decoder has a lapse or takes a single character or escape for what it stands
for. If it comes to no place of a lapse, the escapes are decoded one by one, each as if it stood
alone. -/
theorem content_of_string {text : String} (hspells : (TokenKind.literal .string).Spells text) :
    ∃ inner, text.toList = '"' :: (inner ++ ['"']) ∧
      (∀ out, Decodes SequenceOrLapse inner out [] ↔ out = (content ⟨.string, text⟩).toList) ∧
        (Regular inner →
          ∀ out, Decodes Sequence inner out [] ↔ out = (content ⟨.string, text⟩).toList) := by
  obtain ⟨inner, htext⟩ := exists_inner_of_spells hspells
  rw [toList_content_string htext]
  have hdecodes (out : List Char) :
      Decodes SequenceOrLapse inner out [] ↔ out = unescape inner := by
    constructor
    · intro hout
      rw [hout.unescape, unescape, List.append_nil]
    · rintro rfl
      exact decodes_unescape inner
  exact ⟨inner, htext, hdecodes, fun hregular out => hregular.decodes_iff.trans (hdecodes out)⟩

/-- The decoder goes on behind a code with too few digits. -/
theorem content_of_string_truncated :
    (TokenKind.literal .string).Spells "\"\\u12\\n3\\n\"" ∧
      ∃ inner, "\"\\u12\\n3\\n\"".toList = '"' :: (inner ++ ['"']) ∧
        Decodes SequenceOrLapse inner "\\u12\\n3\n".toList [] := by
  have hspells : (TokenKind.literal .string).Spells "\"\\u12\\n3\\n\"" := by decide +kernel
  obtain ⟨inner, htext, hdecodes, -⟩ := content_of_string hspells
  refine ⟨hspells, inner, htext, (hdecodes _).mpr ?_⟩
  decide +kernel

/-- An escape among the four characters behind a backslash with `u` is not decoded. -/
theorem not_forall_decodes_sequence : ¬ ∀ (text : String) (inner out : List Char),
    (TokenKind.literal .string).Spells text → text.toList = '"' :: (inner ++ ['"']) →
      Decodes Sequence inner out [] → out = (content ⟨.string, text⟩).toList := by
  intro hall
  have hspells : (TokenKind.literal .string).Spells "\"\\u12\\n3\"" := by decide +kernel
  have hcode (c : Char) (rest : List Char) : ¬ CodeAhead ['1', '2', '\\', 'n', '3'] c rest := by
    intro hcode
    exact hcode.not_mem (by decide)
  have hdecodes : Decodes Sequence ['\\', 'u', '1', '2', '\\', 'n', '3']
      ['\\', 'u', '1', '2', '\n', '3'] [] :=
    .next (Sequence.copied rfl fun _ => hcode) <| .next (Sequence.plain (by decide)) <|
      .next (Sequence.plain (by decide)) <| .next (Sequence.mark rfl) <|
        .next (Sequence.plain (by decide)) .none
  have hcontent := hall _ _ _ hspells rfl hdecodes
  exact absurd hcontent (by decide +kernel)

end Literal

end HclEditor
