import Mathlib
import HclEditor.Query.Parse
import HclEditor.Proofs.Outcome
import HclEditor.Proofs.Query.Tokens

/-!
# The written form of queries

A query is well formed if its names can be written, and its labels are such names in
quotes. Reading is the inverse of writing: a text is read as a query exactly if the query is
well formed and written as this text.
-/

namespace HclEditor

open QueryToken Lexeme

namespace Segment

/-- The keys can be written, and the label is something that can be written, in quotes. -/
def WellFormed : Segment → Prop
  | .named key => IsQueryName key
  | .labeled key label =>
      IsQueryName key ∧ ∃ name, IsQueryName name ∧ label = "\"" ++ name ++ "\""

/-- Putting quotes around a label and taking them off leaves the label, whatever quotes are
in it. -/
theorem unquoted_quoted (name : String) : unquoted ("\"" ++ name ++ "\"") = name := by
  have hquoted : ("\"" ++ name ++ "\"").toList = '"' :: (name.toList ++ ['"']) := by simp
  rw [unquoted, hquoted]
  simp

theorem toList_display_labeled (key name : String) :
    (labeled key ("\"" ++ name ++ "\"")).display.toList =
      key.toList ++ '[' :: (name.toList ++ [']']) := by
  simp [display, unquoted_quoted]

end Segment

namespace Query

/-- Every segment is well formed, and the target can be written. -/
structure WellFormed (query : Query) : Prop where
  outer : ∀ segment ∈ query.outer, segment.WellFormed
  target : IsQueryName query.target

theorem wellFormed_within {segment : Segment} {query : Query} :
    (query.within segment).WellFormed ↔ segment.WellFormed ∧ query.WellFormed := by
  constructor
  · rintro ⟨houter, htarget⟩
    obtain ⟨hsegment, houter⟩ := List.forall_mem_cons.mp houter
    exact ⟨hsegment, houter, htarget⟩
  · rintro ⟨hsegment, houter, htarget⟩
    exact ⟨List.forall_mem_cons.mpr ⟨hsegment, houter⟩, htarget⟩

theorem toList_display_nil (target : String) :
    (display ⟨[], target⟩).toList = target.toList := by
  simp [display]

/-- A segment stands in front of the rest of the query, with a dot between them. -/
theorem toList_display_within (segment : Segment) (query : Query) :
    (query.within segment).display.toList =
      segment.display.toList ++ '.' :: query.display.toList := by
  obtain ⟨outer, target⟩ := query
  cases outer <;> simp [display, within, String.toList_intercalate]

/-- The grammar of queries, with the query that each row of tokens stands for. -/
inductive MadeOf : List QueryToken → Query → Prop where
  | target {name : QueryToken} (hname : name.kind = .name) : MadeOf [name] ⟨[], name.text⟩
  | named {name dot : QueryToken} {tokens : List QueryToken} {query : Query}
      (hname : name.kind = .name) (hdot : dot.kind = .dot) (hquery : MadeOf tokens query) :
      MadeOf (name :: dot :: tokens) (query.within (.named name.text))
  | labeled {name opening label closing dot : QueryToken} {tokens : List QueryToken}
      {query : Query} (hname : name.kind = .name) (hopening : opening.kind = .openBracket)
      (hlabel : label.kind = .name) (hclosing : closing.kind = .closeBracket)
      (hdot : dot.kind = .dot) (hquery : MadeOf tokens query) :
      MadeOf (name :: opening :: label :: closing :: dot :: tokens)
        (query.within (.labeled name.text ("\"" ++ label.text ++ "\"")))

theorem madeOf_of_parseTokens {text : String} {tokens : List QueryToken} {query : Query}
    (hparse : parseTokens text tokens = .ok query) : MadeOf tokens query := by
  fun_induction parseTokens text tokens generalizing query
  case case3 name hname =>
    cases hparse
    exact .target (not_not.mp hname)
  case case4 name hname dot tokens hdot ih =>
    obtain ⟨inner, hinner, rfl⟩ := Except.map_eq_ok.mp hparse
    exact .named (not_not.mp hname) hdot (ih hinner)
  case case11 name hname opening hopening label hlabel closing hclosing dot tokens hdot ih =>
    obtain ⟨inner, hinner, rfl⟩ := Except.map_eq_ok.mp hparse
    exact .labeled (not_not.mp hname) hopening (not_not.mp hlabel) (not_not.mp hclosing)
      (not_not.mp hdot) (ih hinner)
  all_goals cases hparse

theorem MadeOf.parseTokens_eq {tokens : List QueryToken} {query : Query}
    (hquery : MadeOf tokens query) (text : String) : parseTokens text tokens = .ok query := by
  induction hquery with
  | target hname => rw [parseTokens, if_neg (not_not.mpr hname)]
  | named hname hdot _ ih =>
      rw [parseTokens.eq_def]
      simp only [hname, hdot, ih, ne_eq, not_true_eq_false, if_false]
      rfl
  | labeled hname hopening hlabel hclosing hdot _ ih =>
      rw [parseTokens.eq_def]
      simp only [hname, hopening, hlabel, hclosing, hdot, ih, ne_eq, not_true_eq_false, if_false]
      rfl

/-- A query that is made of proper tokens is well formed and written as the tokens are. -/
theorem MadeOf.display_eq {tokens : List QueryToken} {query : Query}
    (hquery : MadeOf tokens query) (htokens : ∀ token ∈ tokens, token.Proper) :
    query.WellFormed ∧ query.display.toList = tokens.flatMap chars := by
  induction hquery with
  | target hname =>
      refine ⟨⟨by simp, htokens _ List.mem_cons_self hname⟩, ?_⟩
      rw [toList_display_nil, List.flatMap_singleton, chars_of_name hname]
  | named hname hdot _ ih =>
      simp only [List.forall_mem_cons] at htokens
      obtain ⟨hproper, -, htokens⟩ := htokens
      obtain ⟨hquery, hdisplay⟩ := ih htokens
      refine ⟨wellFormed_within.mpr ⟨hproper hname, hquery⟩, ?_⟩
      rw [toList_display_within, hdisplay, List.flatMap_cons, List.flatMap_cons,
        chars_of_name hname, chars_of_mark (by rw [hdot]; rfl)]
      rfl
  | labeled hname hopening hlabel hclosing hdot _ ih =>
      simp only [List.forall_mem_cons] at htokens
      obtain ⟨hproper, -, hinner, -, -, htokens⟩ := htokens
      obtain ⟨hquery, hdisplay⟩ := ih htokens
      refine ⟨wellFormed_within.mpr ⟨⟨hproper hname, _, hinner hlabel, rfl⟩, hquery⟩, ?_⟩
      simp only [toList_display_within, hdisplay, Segment.toList_display_labeled, List.flatMap_cons,
        chars_of_name hname, chars_of_name hlabel]
      rw [chars_of_mark (by rw [hopening]; rfl), chars_of_mark (by rw [hclosing]; rfl),
        chars_of_mark (by rw [hdot]; rfl)]
      simp

/-- A well-formed query is made of the tokens of what it is written as. -/
theorem madeOf_tokensFrom {query : Query} (hquery : query.WellFormed) (offset : Nat) :
    MadeOf (tokensFrom offset query.display.toList) query := by
  obtain ⟨outer, target⟩ := query
  induction outer generalizing offset with
  | nil =>
      have htokens := tokensFrom_name hquery.target (startsIn_nil _) offset
      rw [List.append_nil] at htokens
      rw [toList_display_nil, htokens, tokensFrom]
      exact .target rfl
  | cons segment outer ih =>
      obtain ⟨hsegment, hinner⟩ : segment.WellFormed ∧ WellFormed ⟨outer, target⟩ :=
        wellFormed_within.mp hquery
      have hdot : AtMark ('.' :: (display ⟨outer, target⟩).toList) := startsIn_cons.mpr rfl
      change MadeOf (tokensFrom offset (within segment ⟨outer, target⟩).display.toList) _
      rw [toList_display_within]
      cases segment with
      | named key =>
          rw [Segment.display, tokensFrom_name hsegment hdot, tokensFrom_mark .dot rfl]
          exact .named rfl rfl (ih _ hinner)
      | labeled key label =>
          obtain ⟨hkey, name, hname, rfl⟩ := hsegment
          have hopening (rest : List Char) : AtMark ('[' :: rest) := startsIn_cons.mpr rfl
          have hclosing (rest : List Char) : AtMark (']' :: rest) := startsIn_cons.mpr rfl
          rw [Segment.toList_display_labeled]
          simp only [List.append_assoc, List.cons_append, List.nil_append]
          rw [tokensFrom_name hkey (hopening _), tokensFrom_mark .openBracket rfl,
            tokensFrom_name hname (hclosing _), tokensFrom_mark .closeBracket rfl,
            tokensFrom_mark .dot rfl]
          exact .labeled rfl rfl rfl rfl rfl (ih _ hinner)

/-- The texts that are read as queries are those that well-formed queries are written as,
and each is read as the query that is written so. -/
theorem parse_eq_ok_iff {text : String} {query : Query} :
    parse text = .ok query ↔ query.WellFormed ∧ query.display = text := by
  constructor
  · intro hparse
    obtain ⟨hquery, hdisplay⟩ :=
      (madeOf_of_parseTokens hparse).display_eq (proper_tokens text)
    rw [flatMap_chars_tokens] at hdisplay
    exact ⟨hquery, String.toList_inj.mp hdisplay⟩
  · rintro ⟨hquery, rfl⟩
    rw [parse, tokens_eq_tokensFrom]
    exact (madeOf_tokensFrom hquery 0).parseTokens_eq _

/-- A label is put between quotes, whatever quotes it has itself. -/
example : (parse "job[we\"b].count").toOption =
    some ⟨[.labeled "job" "\"we\"b\""], "count"⟩ := by
  decide +kernel

end Query

end HclEditor
