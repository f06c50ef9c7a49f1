import Mathlib
import HclEditor.Document.Lexeme

/-!
# Strings have balanced interpolations

Between its quotes a string may hold interpolations, in which braces have to be balanced, and in
these further strings, in which braces count for nothing. A string is read with a stack of the
strings that are open and a count of the braces open in each. What is read in this way is just
what the grammar below allows, and no string is the beginning of another.
-/

namespace HclEditor

namespace Lexeme

mutual

/-- The texts that may stand between the quotes of a string. -/
inductive QuotedText : List Char → Prop
  | nil : QuotedText []
  | plain {c : Char} {text : List Char} (hquote : c ≠ '"') (hescape : c ≠ '\\') (hfeed : c ≠ '\n')
      (hopens : ¬ (c = '$' ∧ text.head? = some '{')) (htext : QuotedText text) :
      QuotedText (c :: text)
  | escape (c : Char) {text : List Char} (htext : QuotedText text) : QuotedText ('\\' :: c :: text)
  | interpolation {inside text : List Char} (hinside : Interpolated inside)
      (htext : QuotedText text) : QuotedText ('$' :: '{' :: (inside ++ '}' :: text))

/-- The texts that may stand between the braces of an interpolation. -/
inductive Interpolated : List Char → Prop
  | nil : Interpolated []
  | plain {c : Char} {text : List Char} (hquote : c ≠ '"') (hopen : c ≠ '{') (hclose : c ≠ '}')
      (htext : Interpolated text) : Interpolated (c :: text)
  | string {quoted text : List Char} (hquoted : QuotedText quoted) (htext : Interpolated text) :
      Interpolated ('"' :: (quoted ++ '"' :: text))
  | braces {inside text : List Char} (hinside : Interpolated inside) (htext : Interpolated text) :
      Interpolated ('{' :: (inside ++ '}' :: text))

end

/-- The strings: texts that may stand between quotes, in their quotes. -/
def Quoted (string : List Char) : Prop :=
  ∃ text, string = '"' :: (text ++ ['"']) ∧ QuotedText text

section Step

variable (start braces : Nat) (outer : List OpenString) (count : Nat) (cs : List Char)

theorem stringLength_closed : stringLength ⟨start, 0⟩ [] count ('"' :: cs) = .ok (count + 1) := by
  rw [stringLength.eq_def]
  rfl

theorem stringLength_resumed (next : OpenString) :
    stringLength ⟨start, 0⟩ (next :: outer) count ('"' :: cs) =
      stringLength next outer (count + 1) cs := by
  rw [stringLength.eq_def]
  rfl

theorem stringLength_escape (c : Char) :
    stringLength ⟨start, 0⟩ outer count ('\\' :: c :: cs) =
      stringLength ⟨start, 0⟩ outer (count + 2) cs := by
  rw [stringLength.eq_def]
  rfl

theorem stringLength_interpolation :
    stringLength ⟨start, 0⟩ outer count ('$' :: '{' :: cs) =
      stringLength ⟨start, 1⟩ outer (count + 2) cs := by
  rw [stringLength.eq_def]
  rfl

theorem stringLength_openBrace :
    stringLength ⟨start, braces + 1⟩ outer count ('{' :: cs) =
      stringLength ⟨start, braces + 2⟩ outer (count + 1) cs := by
  rw [stringLength.eq_def]
  rfl

theorem stringLength_closeBrace :
    stringLength ⟨start, braces + 1⟩ outer count ('}' :: cs) =
      stringLength ⟨start, braces⟩ outer (count + 1) cs := by
  rw [stringLength.eq_def]
  rfl

theorem stringLength_openQuote :
    stringLength ⟨start, braces + 1⟩ outer count ('"' :: cs) =
      stringLength ⟨count + 1, 0⟩ (⟨start, braces + 1⟩ :: outer) (count + 1) cs := by
  rw [stringLength.eq_def]
  rfl

variable {c : Char} (hquote : c ≠ '"')
include hquote

theorem stringLength_plain (hescape : c ≠ '\\') (hfeed : c ≠ '\n')
    (hopens : ¬ (c = '$' ∧ cs.head? = some '{')) :
    stringLength ⟨start, 0⟩ outer count (c :: cs) =
      stringLength ⟨start, 0⟩ outer (count + 1) cs := by
  rw [stringLength.eq_def]
  by_cases hdollar : c = '$'
  · have hbrace : ∀ more, cs = '{' :: more → False := by
      rintro more rfl
      exact hopens ⟨hdollar, rfl⟩
    subst hdollar
    simp
  · simp [hquote, hescape, hfeed, hdollar]

theorem stringLength_inside (hopen : c ≠ '{') (hclose : c ≠ '}') :
    stringLength ⟨start, braces + 1⟩ outer count (c :: cs) =
      stringLength ⟨start, braces + 1⟩ outer (count + 1) cs := by
  rw [stringLength.eq_def]
  simp [hquote, hopen, hclose]

end Step

theorem stringLength_lineFeed_ne_ok (start : Nat) (outer : List OpenString) (count n : Nat)
    (cs : List Char) : stringLength ⟨start, 0⟩ outer count ('\n' :: cs) ≠ .ok n := by
  rw [stringLength.eq_def]
  simp

mutual

/-- Behind a text that may stand between quotes, the string is still open and no brace in it. -/
theorem QuotedText.stringLength_append {text : List Char} (htext : QuotedText text)
    (start : Nat) (outer : List OpenString) (count : Nat) (rest : List Char) :
    stringLength ⟨start, 0⟩ outer count (text ++ '"' :: rest) =
      stringLength ⟨start, 0⟩ outer (count + text.length) ('"' :: rest) := by
  cases htext with
  | nil => rfl
  | @plain c text hquote hescape hfeed hopens hmore =>
      have hopens' : ¬ (c = '$' ∧ (text ++ '"' :: rest).head? = some '{') := by
        cases text with
        | nil => simp
        | cons d text => exact hopens
      rw [List.cons_append, stringLength_plain _ _ _ _ hquote hescape hfeed hopens',
        hmore.stringLength_append, List.length_cons, Nat.add_assoc, Nat.add_comm 1]
  | @escape c text hmore =>
      rw [List.cons_append, List.cons_append, stringLength_escape, hmore.stringLength_append,
        List.length_cons, List.length_cons, Nat.add_assoc, Nat.add_comm 2]
  | @interpolation inside text hinside hmore =>
      rw [List.cons_append, List.cons_append, List.append_assoc, List.cons_append,
        stringLength_interpolation, hinside.stringLength_append, stringLength_closeBrace,
        hmore.stringLength_append]
      congr 1
      simp
      omega
termination_by text.length
decreasing_by all_goals simp only [List.length_cons, List.length_append]; omega

/-- Behind a text that may stand between braces, as many braces are open as in front of it. -/
theorem Interpolated.stringLength_append {text : List Char} (htext : Interpolated text)
    (start braces : Nat) (outer : List OpenString) (count : Nat) (rest : List Char) :
    stringLength ⟨start, braces + 1⟩ outer count (text ++ rest) =
      stringLength ⟨start, braces + 1⟩ outer (count + text.length) rest := by
  cases htext with
  | nil => rfl
  | @plain c text hquote hopen hclose hmore =>
      rw [List.cons_append, stringLength_inside _ _ _ _ _ hquote hopen hclose,
        hmore.stringLength_append, List.length_cons, Nat.add_assoc, Nat.add_comm 1]
  | @string quoted text hquoted hmore =>
      rw [List.cons_append, List.append_assoc, List.cons_append, stringLength_openQuote,
        hquoted.stringLength_append, stringLength_resumed, hmore.stringLength_append]
      congr 1
      simp
      omega
  | @braces inside text hinside hmore =>
      rw [List.cons_append, List.append_assoc, List.cons_append, stringLength_openBrace,
        hinside.stringLength_append, stringLength_closeBrace, hmore.stringLength_append]
      congr 1
      simp
      omega
termination_by text.length
decreasing_by all_goals simp only [List.length_cons, List.length_append]; omega

end

mutual

/-- Where a string is closed, it is closed behind a text that may stand between quotes. -/
theorem exists_quotedText {start : Nat} {outer : List OpenString} {count n : Nat} {cs : List Char}
    (hlength : stringLength ⟨start, 0⟩ outer count cs = .ok n) :
    ∃ text rest, cs = text ++ '"' :: rest ∧ QuotedText text := by
  cases cs with
  | nil => cases hlength
  | cons c cs =>
      by_cases hquote : c = '"'
      · exact ⟨[], cs, by rw [hquote]; rfl, .nil⟩
      by_cases hfeed : c = '\n'
      · subst hfeed
        exact absurd hlength (stringLength_lineFeed_ne_ok start outer count n cs)
      by_cases hescape : c = '\\'
      · subst hescape
        cases cs with
        | nil => cases hlength
        | cons c cs =>
            rw [stringLength_escape] at hlength
            obtain ⟨text, rest, rfl, htext⟩ := exists_quotedText hlength
            exact ⟨'\\' :: c :: text, rest, rfl, .escape c htext⟩
      by_cases hopens : c = '$' ∧ cs.head? = some '{'
      · obtain ⟨rfl, hbrace⟩ := hopens
        obtain ⟨cs, rfl⟩ := List.head?_eq_some_iff.mp hbrace
        rw [stringLength_interpolation] at hlength
        obtain ⟨inside, more, rfl, hinside⟩ := exists_interpolated hlength
        rw [hinside.stringLength_append, stringLength_closeBrace] at hlength
        obtain ⟨text, rest, rfl, htext⟩ := exists_quotedText hlength
        refine ⟨'$' :: '{' :: (inside ++ '}' :: text), rest, ?_, .interpolation hinside htext⟩
        simp
      · rw [stringLength_plain _ _ _ _ hquote hescape hfeed hopens] at hlength
        obtain ⟨text, rest, rfl, htext⟩ := exists_quotedText hlength
        refine ⟨c :: text, rest, rfl, .plain hquote hescape hfeed ?_ htext⟩
        rintro ⟨rfl, hbrace⟩
        obtain ⟨more, rfl⟩ := List.head?_eq_some_iff.mp hbrace
        exact hopens ⟨rfl, rfl⟩
termination_by cs.length
decreasing_by all_goals subst_vars; simp only [List.length_cons, List.length_append]; omega

/-- Where an open brace leads to the end of a string, it is closed behind a text that may stand
between braces. -/
theorem exists_interpolated {start braces : Nat} {outer : List OpenString} {count n : Nat}
    {cs : List Char} (hlength : stringLength ⟨start, braces + 1⟩ outer count cs = .ok n) :
    ∃ text rest, cs = text ++ '}' :: rest ∧ Interpolated text := by
  cases cs with
  | nil => cases hlength
  | cons c cs =>
      by_cases hclose : c = '}'
      · exact ⟨[], cs, by rw [hclose]; rfl, .nil⟩
      by_cases hopen : c = '{'
      · subst hopen
        rw [stringLength_openBrace] at hlength
        obtain ⟨inside, more, rfl, hinside⟩ := exists_interpolated hlength
        rw [hinside.stringLength_append, stringLength_closeBrace] at hlength
        obtain ⟨text, rest, rfl, htext⟩ := exists_interpolated hlength
        refine ⟨'{' :: (inside ++ '}' :: text), rest, ?_, .braces hinside htext⟩
        simp
      by_cases hquote : c = '"'
      · subst hquote
        rw [stringLength_openQuote] at hlength
        obtain ⟨quoted, more, rfl, hquoted⟩ := exists_quotedText hlength
        rw [hquoted.stringLength_append, stringLength_resumed] at hlength
        obtain ⟨text, rest, rfl, htext⟩ := exists_interpolated hlength
        refine ⟨'"' :: (quoted ++ '"' :: text), rest, ?_, .string hquoted htext⟩
        simp
      · rw [stringLength_inside _ _ _ _ _ hquote hopen hclose] at hlength
        obtain ⟨text, rest, rfl, htext⟩ := exists_interpolated hlength
        exact ⟨c :: text, rest, rfl, .plain hquote hopen hclose htext⟩
termination_by cs.length
decreasing_by all_goals subst_vars; simp only [List.length_cons, List.length_append]; omega

end

theorem stringLength_quotedText {text : List Char} (htext : QuotedText text) (rest : List Char) :
    stringLength ⟨0, 0⟩ [] 0 (text ++ '"' :: rest) = .ok (text.length + 1) := by
  rw [htext.stringLength_append, stringLength_closed, Nat.zero_add]

theorem stringLength_eq_ok_iff {cs : List Char} {n : Nat} : stringLength ⟨0, 0⟩ [] 0 cs = .ok n ↔
    ∃ text rest, cs = text ++ '"' :: rest ∧ QuotedText text ∧ n = text.length + 1 := by
  constructor
  · intro hlength
    obtain ⟨text, rest, rfl, htext⟩ := exists_quotedText hlength
    rw [stringLength_quotedText htext] at hlength
    exact ⟨text, rest, rfl, htext, (Except.ok.inj hlength).symm⟩
  · rintro ⟨text, rest, rfl, htext, rfl⟩
    exact stringLength_quotedText htext rest

/-- The token that a quote starts is the string that it starts. -/
theorem read_quote_eq_ok_iff {cs : List Char} {count : Nat} :
    read '"' cs = .ok (.literal .string, count) ↔
      count ≤ cs.length ∧ Quoted ('"' :: cs.take count) := by
  have hread : read '"' cs = .ok (.literal .string, count) ↔
      stringLength ⟨0, 0⟩ [] 0 cs = .ok count := by
    rw [read]
    cases stringLength ⟨0, 0⟩ [] 0 cs <;> simp [Except.map]
  rw [hread, stringLength_eq_ok_iff]
  constructor
  · rintro ⟨text, rest, rfl, htext, rfl⟩
    refine ⟨by simp, text, ?_, htext⟩
    simp [List.take_append]
  · rintro ⟨hcount, text, hstring, htext⟩
    have hcs : cs = text ++ '"' :: cs.drop count := by
      rw [List.cons.injEq] at hstring
      conv_lhs => rw [← List.take_append_drop count cs, hstring.2]
      simp
    refine ⟨text, cs.drop count, hcs, htext, ?_⟩
    have hlength := congrArg List.length hstring
    simp at hlength
    omega

theorem exists_read_quote_error_iff {cs : List Char} :
    (∃ fault, read '"' cs = .error fault) ↔
      ∀ count, read '"' cs ≠ .ok (.literal .string, count) := by
  rw [read]
  cases stringLength ⟨0, 0⟩ [] 0 cs <;> simp [Except.map]

section Source

variable {source : String} {start : Nat} (hstart : source.toList[start]? = some '"')
include hstart

/-- At a quote of the source, reading stops where a string that starts there does. -/
theorem exists_read_quote_iff (stop : Nat) :
    (∃ count, read '"' (source.toList.drop (start + 1)) = .ok (.literal .string, count) ∧
      stop = start + 1 + count) ↔
    stop ≤ source.length ∧ Quoted (source.toList.extract start stop) := by
  obtain ⟨hlt, hquote⟩ := List.getElem?_eq_some_iff.mp hstart
  have hdrop : source.toList.drop start = '"' :: source.toList.drop (start + 1) := by
    rw [← hquote, List.getElem_cons_drop]
  simp only [read_quote_eq_ok_iff, List.extract_eq_take_drop, hdrop, List.length_drop,
    ← String.length_toList]
  constructor
  · rintro ⟨count, ⟨hcount, hquoted⟩, rfl⟩
    refine ⟨by omega, ?_⟩
    rw [show start + 1 + count - start = count + 1 by omega, List.take_succ_cons]
    exact hquoted
  · rintro ⟨hstop, hquoted⟩
    cases hlength : stop - start with
    | zero =>
        rw [hlength] at hquoted
        obtain ⟨text, htext, -⟩ := hquoted
        cases htext
    | succ count =>
        rw [hlength, List.take_succ_cons] at hquoted
        exact ⟨count, ⟨by omega, hquoted⟩, by omega⟩

theorem stop_unique {first second : Nat} (hfirst : first ≤ source.length)
    (hsecond : second ≤ source.length) (hquoted : Quoted (source.toList.extract start first))
    (hquoted' : Quoted (source.toList.extract start second)) : first = second := by
  obtain ⟨count, hread, rfl⟩ := (exists_read_quote_iff hstart first).mpr ⟨hfirst, hquoted⟩
  obtain ⟨count', hread', rfl⟩ := (exists_read_quote_iff hstart second).mpr ⟨hsecond, hquoted'⟩
  rw [hread] at hread'
  cases hread'
  rfl

end Source

/-- At a quote of the source, the string that starts there is read, up to the index where it
stops. No two strings start at a quote, and where none does, reading fails. -/
theorem read_quote_iff_quoted {source : String} {start : Nat}
    (hstart : source.toList[start]? = some '"') :
    (∀ stop, (∃ count, read '"' (source.toList.drop (start + 1)) = .ok (.literal .string, count) ∧
        stop = start + 1 + count) ↔
      stop ≤ source.length ∧ Quoted (source.toList.extract start stop)) ∧
    (∀ first second, first ≤ source.length → second ≤ source.length →
      Quoted (source.toList.extract start first) → Quoted (source.toList.extract start second) →
        first = second) ∧
    ((∃ fault, read '"' (source.toList.drop (start + 1)) = .error fault) ↔
      ∀ stop ≤ source.length, ¬ Quoted (source.toList.extract start stop)) := by
  refine ⟨exists_read_quote_iff hstart, fun _ _ => stop_unique hstart, ?_⟩
  rw [exists_read_quote_error_iff]
  constructor
  · intro hfails stop hstop hquoted
    obtain ⟨count, hread, -⟩ := (exists_read_quote_iff hstart stop).mpr ⟨hstop, hquoted⟩
    exact hfails count hread
  · intro hnone count hread
    obtain ⟨hstop, hquoted⟩ := (exists_read_quote_iff hstart _).mp ⟨count, hread, rfl⟩
    exact hnone _ hstop hquoted

/-- In the interpolation a string with a brace in it stands between balanced braces. -/
theorem read_quote_iff_quoted_nested :
    "= \"$\x7bb\x7b\"\x7d\"\x7d\x7d\"\n".toList[2]? = some '"' ∧
      Quoted ("= \"$\x7bb\x7b\"\x7d\"\x7d\x7d\"\n".toList.extract 2 13) := by
  have hquote : "= \"$\x7bb\x7b\"\x7d\"\x7d\x7d\"\n".toList[2]? = some '"' := by decide +kernel
  have hread : read '"' ("= \"$\x7bb\x7b\"\x7d\"\x7d\x7d\"\n".toList.drop 3) =
      .ok (.literal .string, 10) := by decide +kernel
  exact ⟨hquote, (((read_quote_iff_quoted hquote).1 13).mp ⟨10, hread, rfl⟩).2⟩

end Lexeme

end HclEditor
