import Mathlib
import HclEditor.Literal.Content
import HclEditor.Proofs.Token.Reading

/-!
# The lines of a heredoc

A heredoc is read up to the first line that is its anchor, trimmed, and says the lines above
that one. It is read by its line feeds alone, while its content takes a carriage return in
front of a line feed for a part of the line's end. Indentation is taken off the front of a
line, which leaves a carriage return at its end where it is.
-/

namespace HclEditor

open Lexeme

namespace Literal

/-- The line without the carriage return at its end, if there is one. -/
def dropReturn (line : List Char) : List Char :=
  if line.getLast? = some '\r' then line.dropLast else line

theorem dropReturn_concat (line : List Char) : dropReturn (line ++ ['\r']) = line := by
  rw [dropReturn, if_pos List.getLast?_concat, List.dropLast_concat]

theorem dropReturn_of_getLast?_ne {line : List Char} (hlast : line.getLast? ≠ some '\r') :
    dropReturn line = line :=
  if_neg hlast

/-- A line ends with a carriage return, or nothing is taken from it. -/
theorem return_cases (line : List Char) :
    (∃ own, line = own ++ ['\r']) ∨ line.getLast? ≠ some '\r' := by
  by_cases hlast : line.getLast? = some '\r'
  · exact .inl (List.getLast?_eq_some_iff.mp hlast)
  · exact .inr hlast

theorem dropReturn_cons {c : Char} {line : List Char} (hline : c = '\r' → line ≠ []) :
    dropReturn (c :: line) = c :: dropReturn line := by
  rcases return_cases line with ⟨own, rfl⟩ | hlast
  · rw [← List.cons_append, dropReturn_concat, dropReturn_concat]
  · rw [dropReturn_of_getLast?_ne hlast, dropReturn_of_getLast?_ne]
    rw [List.getLast?_cons]
    cases hempty : line.getLast? with
    | none =>
        rw [Option.getD_none, ne_eq, Option.some.injEq]
        exact fun hreturn => hline hreturn (List.getLast?_eq_none_iff.mp hempty)
    | some d => rwa [Option.getD_some, ← hempty]

section Lines

variable {line : List Char} (hline : '\n' ∉ line)
include hline

theorem lines_append_lineFeed (rest : List Char) :
    lines (line ++ '\n' :: rest) = dropReturn line :: lines rest := by
  induction line with
  | nil => rw [List.nil_append, lines]; rfl
  | cons c line ih =>
      rw [List.mem_cons, not_or] at hline
      obtain ⟨hc, hline⟩ := hline
      by_cases hreturn : c = '\r' ∧ line = []
      · obtain ⟨rfl, rfl⟩ := hreturn
        rw [List.cons_append, List.nil_append, lines]
        rfl
      · rw [not_and] at hreturn
        have hinside (more : List Char) (hcr : c = '\r') : line ++ '\n' :: rest ≠ '\n' :: more := by
          obtain ⟨d, others, rfl⟩ := List.exists_cons_of_ne_nil (hreturn hcr)
          rintro ⟨⟩
          exact hline List.mem_cons_self
        rw [List.cons_append,
          lines.eq_4 _ _ (fun heq => hc heq.symm) fun more hcr => hinside more hcr, ih hline, dropReturn_cons hreturn]

/-- Behind the last line feed all characters are one line, with a carriage return at its end. -/
theorem lines_of_not_mem (hne : line ≠ []) : lines line = [line] := by
  induction line with
  | nil => exact absurd rfl hne
  | cons c line ih =>
      rw [List.mem_cons, not_or] at hline
      obtain ⟨hc, hline⟩ := hline
      have hinside (more : List Char) (_ : c = '\r') : line ≠ '\n' :: more := by
        rintro rfl
        exact hline List.mem_cons_self
      rw [lines.eq_4 _ _ (fun heq => hc heq.symm) fun more hcr => hinside more hcr]
      cases line with
      | nil => rfl
      | cons d line => rw [ih hline (List.cons_ne_nil _ _)]

end Lines

theorem lines_terminated {above : List (List Char)} (habove : ∀ line ∈ above, '\n' ∉ line)
    {last : List Char} (hlast : '\n' ∉ last) (hne : last ≠ []) :
    lines (terminated above ++ last) = above.map dropReturn ++ [last] := by
  induction above with
  | nil => exact lines_of_not_mem hlast hne
  | cons line above ih =>
      obtain ⟨hline, habove⟩ := List.forall_mem_cons.mp habove
      rw [terminated_cons, List.append_assoc, List.cons_append, lines_append_lineFeed hline,
        ih habove, List.map_cons, List.cons_append]

/-- A carriage return at the end of a line does not indent it. -/
theorem indentation_dropReturn (line : List Char) :
    indentation (dropReturn line) = indentation line := by
  rcases return_cases line with ⟨own, rfl⟩ | hlast
  · have hreturn : StartsIn (· == '\r') ['\r'] := startsIn_cons.mpr rfl
    rw [dropReturn_concat, indentation, indentation, takeWhile_append_of_startsIn _ own hreturn]
    intro c hc
    rw [beq_iff_eq.mp hc]
    rfl
  · rw [dropReturn_of_getLast?_ne hlast]

/-- It makes no difference whether a line loses its indentation or its carriage return first. -/
theorem drop_dropReturn {line : List Char} {n : Nat} (hn : n ≤ indentation line) :
    (dropReturn line).drop n = dropReturn (line.drop n) := by
  rcases return_cases line with ⟨own, rfl⟩ | hlast
  · rw [← indentation_dropReturn, dropReturn_concat] at hn
    have hle : n ≤ own.length := hn.trans (List.takeWhile_sublist _).length_le
    rw [dropReturn_concat, List.drop_append_of_le_length hle, dropReturn_concat]
  · rw [dropReturn_of_getLast?_ne hlast, dropReturn_of_getLast?_ne]
    rw [List.getLast?_drop]
    split
    · simp
    · exact hlast

end Literal

namespace Lexeme.HeredocParts

open Literal

variable (parts : HeredocParts)

/-- The line that the heredoc opens with. -/
def firstLine : List Char :=
  "<<".toList ++ parts.dash ++ parts.anchor ++ parts.carriage

/-- The text of the heredoc. -/
def text : List Char :=
  '<' :: '<' :: parts.chars

theorem text_eq : parts.text = terminated (parts.firstLine :: parts.lines) ++ parts.closing := by
  simp [text, chars, opening, body, firstLine]

theorem lineFeed_not_mem_anchor : '\n' ∉ parts.anchor := by
  intro hmem
  have hfeed := parts.anchor_chars _ hmem
  rw [isAnchorChar_lineFeed] at hfeed
  cases hfeed

theorem lineFeed_not_mem_lines : ∀ line ∈ parts.firstLine :: parts.lines, '\n' ∉ line := by
  refine List.forall_mem_cons.mpr ⟨?_, fun line hline => (parts.lines_open line hline).1⟩
  have hanchor := parts.lineFeed_not_mem_anchor
  rcases parts.dash_eq with hdash | hdash <;> rcases parts.carriage_eq with hreturn | hreturn <;>
    simp [firstLine, hdash, hreturn, hanchor]

theorem closing_ne_nil : parts.closing ≠ [] := by
  intro hempty
  have htrim := parts.trim_closing
  rw [hempty] at htrim
  exact parts.anchor_ne_nil htrim.symm

theorem dropReturn_firstLine :
    dropReturn parts.firstLine = "<<".toList ++ parts.dash ++ parts.anchor := by
  rcases parts.carriage_eq with hreturn | hreturn
  · rw [firstLine, hreturn, List.append_nil, dropReturn_of_getLast?_ne]
    rw [List.getLast?_append_of_ne_nil _ parts.anchor_ne_nil]
    intro hlast
    have hchar := parts.anchor_chars _ (List.mem_of_getLast? hlast)
    rw [isAnchorChar_carriage] at hchar
    cases hchar
  · rw [firstLine, hreturn, dropReturn_concat]

theorem dash_isPrefixOf_text : "<<-".toList.isPrefixOf parts.text = decide (parts.dash ≠ []) := by
  obtain ⟨first, more, hanchor⟩ := List.exists_cons_of_ne_nil parts.anchor_ne_nil
  have hfirst : first ≠ '-' := by
    rintro rfl
    have hchar := parts.anchor_chars '-' (by simp [hanchor])
    rw [isAnchorChar_dash] at hchar
    cases hchar
  rcases parts.dash_eq with hdash | hdash
  · simp [text, chars, opening, List.isPrefixOf, hdash, hanchor, hfirst.symm]
  · simp [text, chars, opening, hdash]

/-- The lines inside the heredoc are the ones above its closing line. -/
theorem heredocLines_text : heredocLines parts.text = parts.lines.map fun line => dropReturn
    (if parts.dash = [] then line
      else line.drop (min (indentation line) (indentation parts.closing))) := by
  have hlines : (Literal.lines parts.text).tail =
      parts.lines.map dropReturn ++ [parts.closing] := by
    rw [text_eq, lines_terminated parts.lineFeed_not_mem_lines parts.closing_line
      parts.closing_ne_nil, List.map_cons, List.cons_append, List.tail_cons]
  simp only [heredocLines, hlines, List.getLast?_concat, List.dropLast_concat,
    dash_isPrefixOf_text, decide_eq_true_eq]
  by_cases hdash : parts.dash = []
  · simp [hdash]
  · simp only [hdash, ne_eq, not_false_eq_true, if_true, if_false, List.map_map]
    refine List.map_congr_left fun line _ => ?_
    rw [Function.comp_apply, indentation_dropReturn, drop_dropReturn (Nat.min_le_left _ _)]

end Lexeme.HeredocParts

theorem TokenKind.Reads.exists_parts {text : String} {rest : List Char}
    (hreads : (literal .heredoc).Reads text rest) :
    ∃ parts : HeredocParts, text.toList = parts.text := by
  obtain ⟨c, cs, htext, -, hread⟩ := hreads
  obtain ⟨rfl, parts, behind, hsplit, hlength, -⟩ := read_eq_ok_heredoc hread
  refine ⟨parts, ?_⟩
  rw [← List.cons_append] at hsplit
  rw [htext, List.append_inj_left hsplit (by rw [hlength, List.length_cons]), HeredocParts.text]

namespace Literal

/-- A heredoc of a source opens with its anchor, perhaps behind a dash, and ends with the first
line that is the anchor, trimmed. Its content are the lines between the two, without carriage
returns at their ends; behind a dash each of them loses its indentation, but no more of it than
the closing line has. -/
theorem content_of_heredoc {source : String} {stream : TokenStream}
    (hscan : TokenStream.scan source = .ok stream) {token : Token} (htoken : token ∈ stream.tokens)
    (hkind : token.kind = .literal .heredoc) :
    ∃ (dash anchor first closing : List Char) (between : List (List Char)),
      token.text.toList.splitOn '\n' = first :: between ++ [closing] ∧
      (dash = [] ∨ dash = ['-']) ∧ anchor ≠ [] ∧ (∀ c ∈ anchor, isAnchorChar c = true) ∧
      dropReturn first = "<<".toList ++ dash ++ anchor ∧ Text.trim closing = anchor ∧
      (∀ line ∈ between, Text.trim line ≠ anchor) ∧
      (content ⟨.heredoc, token.text⟩).toList =
        ['\n'].intercalate (between.map fun line => dropReturn
          (if dash = [] then line
            else line.drop (min (indentation line) (indentation closing)))) := by
  obtain ⟨before, rest, -, hreads, -⟩ := TokenStream.reads_of_scanFrom hscan htoken
  rw [hkind] at hreads
  obtain ⟨parts, htext⟩ := hreads.exists_parts
  refine ⟨parts.dash, parts.anchor, parts.firstLine, parts.closing, parts.lines, ?_,
    parts.dash_eq, parts.anchor_ne_nil, parts.anchor_chars, parts.dropReturn_firstLine,
    parts.trim_closing, fun line hline => (parts.lines_open line hline).2, ?_⟩
  · rw [htext, parts.text_eq, splitOn_terminated parts.lineFeed_not_mem_lines parts.closing_line]
  · rw [content, String.toList_ofList, heredocContent, htext, parts.heredocLines_text]

/-- The closing line is indented by two, so a line that is indented by one loses only that. -/
theorem content_of_heredoc_indented :
    (TokenKind.literal .heredoc).Spells "<<-EOF\r\n\t  one\r\n two EOF\n\n  EOF \r" ∧
      ∃ (dash anchor first closing : List Char) (between : List (List Char)),
        "<<-EOF\r\n\t  one\r\n two EOF\n\n  EOF \r".toList.splitOn '\n' =
          first :: between ++ [closing] ∧
        dropReturn first = "<<".toList ++ dash ++ anchor ∧ Text.trim closing = anchor ∧
        (∀ line ∈ between, Text.trim line ≠ anchor) ∧
        ['\n'].intercalate (between.map fun line => dropReturn
          (if dash = [] then line
            else line.drop (min (indentation line) (indentation closing)))) =
          " one\ntwo EOF\n".toList := by
  have hspells : (TokenKind.literal .heredoc).Spells
      "<<-EOF\r\n\t  one\r\n two EOF\n\n  EOF \r" := by decide +kernel
  obtain ⟨dash, anchor, first, closing, between, hlines, -, -, -, hfirst, htrim, hbetween,
    hcontent⟩ := content_of_heredoc hspells List.mem_cons_self rfl
  refine ⟨hspells, dash, anchor, first, closing, between, hlines, hfirst, htrim, hbetween, ?_⟩
  rw [← hcontent]
  decide +kernel

end Literal

end HclEditor
