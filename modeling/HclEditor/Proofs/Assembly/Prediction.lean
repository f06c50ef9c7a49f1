import Mathlib
import HclEditor.Proofs.Assembly.Grammar
import HclEditor.Proofs.Assembly.Soundness
import HclEditor.Proofs.Token.Stream

/-!
# Assembling follows the grammar

At every reading point the grammar says how the tokens may go on: the unfinished
containers, from the innermost to the document's own body, each contribute what is left of
them. A token that may stand next moves the reading point to where exactly the rest may
follow, any other token is a fault. So a source is a document if its tokens form a body, and
otherwise the fault is at the first token with which no document can begin.
-/

namespace HclEditor

open Computability Grammar

/-- What may stand between the last item of a body and the next. -/
def Trailing.separator : Trailing → Language TokenKind
  | .commaOrComment => optional (token .comma)
  | _ => 1

theorem Trailing.nil_mem_separator (trailing : Trailing) : [] ∈ trailing.separator := by
  cases trailing with
  | commaOrComment => exact nil_mem_optional
  | _ => rfl

/-- What may follow in a list up to the bracket that closes it. -/
def OpenList.remainder (list : OpenList) : Language TokenKind :=
  if list.awaitsComma then more else language .list

theorem OpenList.nil_mem_remainder (list : OpenList) : [] ∈ list.remainder := by
  rw [remainder]
  split
  · exact nil_mem_more
  · exact nil_mem_list

mutual

/-- What may follow a body up to the end of the document. -/
def Site.rest : Site → Language TokenKind
  | .document => 1
  | .object slot => token .closeBrace * slot.rest

/-- What may follow a value up to the end of the document. -/
def Slot.rest : Slot → Language TokenKind
  | .item site _ _ => optional (token .comma) * (language .body * site.rest)
  | .element slot _ => more * (token .closeBracket * slot.rest)

end

/-- What may follow the reading point up to the end of the document. -/
def ReadingPoint.rest : ReadingPoint → Language TokenKind
  | .items site body => body.trailing.separator * (language .body * site.rest)
  | .keys site body entry => key∗ * (itemTail * (Slot.item site body entry).rest)
  | .value site body entry => comments * (language .value * (Slot.item site body entry).rest)
  | .list slot elements => elements.remainder * (token .closeBracket * slot.rest)

section Step

variable {kind : TokenKind} {kinds : List TokenKind}

theorem Site.cons_mem_rest {site : Site} : kind :: kinds ∈ site.rest ↔
    ∃ slot, site = .object slot ∧ kind = .closeBrace ∧ kinds ∈ slot.rest := by
  cases site with
  | document => simp [rest, Language.mem_one]
  | object slot =>
      rw [rest, cons_mem_token_mul]
      simp

theorem ReadingPoint.cons_mem_rest_items {site : Site} {body : OpenBody} :
    kind :: kinds ∈ (items site body).rest ↔
      kind = .comma ∧ body.trailing = .commaOrComment ∧ kinds ∈ language .body * site.rest ∨
        kind :: kinds ∈ language .body * site.rest := by
  rw [rest]
  cases htrailing : body.trailing with
  | commaOrComment => simp [Trailing.separator, cons_mem_optional_mul]
  | _ => simp [Trailing.separator]

theorem OpenList.awaitsComma_comment (list : OpenList) (token : Token) :
    (list.comment token).awaitsComma = list.awaitsComma := by
  unfold comment
  split
  · split <;> rfl
  · rfl

theorem Slot.rest_fill (slot : Slot) (value : Value) (token : Token) :
    (slot.fill value token).rest = slot.rest := by
  cases slot with
  | item site body entry => rfl
  | element slot elements => rfl

theorem Slot.cons_mem_value_iff {slot : Slot} {token : Token} :
    token.kind :: kinds ∈ language .value * slot.rest ↔
      ∃ next, slot.start token = .ok next ∧ kinds ∈ next.rest := by
  rw [cons_mem_value_mul, start]
  split
  next scalar hkind => simp [hkind, rest_fill]
  next hkind => simp [hkind, ReadingPoint.rest, Trailing.separator, Site.rest]
  next hkind => simp [hkind, ReadingPoint.rest, OpenList.remainder]
  next hliteral hbrace hbracket =>
    simp only [reduceCtorEq, false_and, exists_false, iff_false]
    rintro (⟨⟨scalar, hkind⟩, -⟩ | ⟨hkind, -⟩ | ⟨hkind, -⟩)
    · exact hliteral scalar hkind
    · exact hbrace hkind
    · exact hbracket hkind

namespace ReadingPoint

variable {site : Site} {body : OpenBody} {entry : OpenItem} {slot : Slot} {elements : OpenList}
variable (lastLine : Nat) {token : Token}

theorem cons_mem_items_iff : token.kind :: kinds ∈ (items site body).rest ↔
    ∃ next, (items site body).step lastLine token = .ok next ∧ kinds ∈ next.rest := by
  rw [cons_mem_rest_items, cons_mem_body_mul, Site.cons_mem_rest]
  simp only [step]
  split
  next hkind =>
    simp [hkind, rest, OpenBody.trailing_comment, Trailing.separator, TokenKind.keyKind?]
  next hkind =>
    by_cases htrailing : body.trailing = .commaOrComment <;>
      simp [hkind, htrailing, rest, Trailing.separator, TokenKind.keyKind?]
  next hkind =>
    cases site with
    | document => simp [hkind, TokenKind.keyKind?]
    | object slot => simp [hkind, Slot.rest_fill, TokenKind.keyKind?]
  next hcomment hcomma hbrace =>
    cases hkey : token.kind.keyKind? with
    | none => simp [eq_false hcomment, eq_false hcomma, eq_false hbrace]
    | some keyKind => simp [eq_false hcomment, eq_false hcomma, eq_false hbrace, rest, Slot.rest]

theorem cons_mem_keys_iff : token.kind :: kinds ∈ (keys site body entry).rest ↔
    ∃ next, (keys site body entry).step lastLine token = .ok next ∧ kinds ∈ next.rest := by
  rw [rest, cons_mem_keys_mul, cons_mem_itemTail_mul]
  simp only [step]
  split
  next hkind => simp [hkind, rest, Slot.rest, TokenKind.keyKind?]
  next hkind => simp [hkind, rest, Trailing.separator, Site.rest, TokenKind.keyKind?]
  next hassign hbrace =>
    cases hkey : token.kind.keyKind? with
    | none => simp [eq_false hassign, eq_false hbrace]
    | some keyKind => simp [eq_false hassign, eq_false hbrace, rest, Slot.rest]

theorem cons_mem_value_iff : token.kind :: kinds ∈ (value site body entry).rest ↔
    ∃ next, (value site body entry).step lastLine token = .ok next ∧ kinds ∈ next.rest := by
  rw [rest, cons_mem_comments_mul, Slot.cons_mem_value_iff]
  simp only [step]
  split
  next hkind => simp [hkind, rest, Slot.rest, Slot.start]
  next hcomment => simp [eq_false hcomment]

theorem cons_mem_list_iff_of_comma (hawaits : elements.awaitsComma = true) :
    token.kind :: kinds ∈ (list slot elements).rest ↔
      ∃ next, (list slot elements).step lastLine token = .ok next ∧ kinds ∈ next.rest := by
  rw [rest, OpenList.remainder, if_pos hawaits, cons_mem_more_mul, cons_mem_token_mul]
  simp only [step, hawaits]
  split
  next hkind => simp [hkind, Slot.rest_fill]
  next hkind => simp [hkind, rest, OpenList.remainder, OpenList.awaitsComma_comment, hawaits]
  next hkind _ => simp [hkind, rest, OpenList.remainder]
  next _ hbracket hcomment hcomma =>
    simp [eq_false hbracket, eq_false hcomment, eq_false hcomma]
  next hfalse _ _ => cases hfalse

theorem cons_mem_list_iff_of_element (hawaits : elements.awaitsComma = false) :
    token.kind :: kinds ∈ (list slot elements).rest ↔
      ∃ next, (list slot elements).step lastLine token = .ok next ∧ kinds ∈ next.rest := by
  have helement : token.kind :: kinds ∈ language .value * (Slot.element slot elements).rest ↔
      ∃ next, (Slot.element slot elements).start token = .ok next ∧ kinds ∈ next.rest :=
    Slot.cons_mem_value_iff
  rw [Slot.rest] at helement
  rw [rest, OpenList.remainder, if_neg (by simp [hawaits]), cons_mem_list_mul,
    cons_mem_token_mul, helement]
  simp only [step, hawaits]
  split
  next hkind => simp [hkind, Slot.rest_fill, Slot.start]
  next hkind =>
    simp [hkind, rest, OpenList.remainder, OpenList.awaitsComma_comment, hawaits, Slot.start]
  next htrue => cases htrue
  next htrue _ _ _ => cases htrue
  next _ hbracket hcomment => simp [eq_false hbracket, eq_false hcomment]

/-- A token may stand next if the reading point moves over it, to where the rest may
follow. -/
theorem cons_mem_rest_iff {point : ReadingPoint} : token.kind :: kinds ∈ point.rest ↔
    ∃ next, point.step lastLine token = .ok next ∧ kinds ∈ next.rest := by
  cases point with
  | items site body => exact cons_mem_items_iff lastLine
  | keys site body entry => exact cons_mem_keys_iff lastLine
  | value site body entry => exact cons_mem_value_iff lastLine
  | list slot elements =>
      cases hawaits : elements.awaitsComma with
      | true => exact cons_mem_list_iff_of_comma lastLine hawaits
      | false => exact cons_mem_list_iff_of_element lastLine hawaits

end ReadingPoint

/-- The source may end where nothing needs to follow. -/
theorem ReadingPoint.nil_mem_rest_iff {point : ReadingPoint} :
    [] ∈ point.rest ↔ ∃ body, point.finish = .ok body := by
  cases point with
  | items site body =>
      rw [rest, nil_mem_mul, nil_mem_mul]
      cases site with
      | document => simp [finish, body.trailing.nil_mem_separator, nil_mem_body, Site.rest]
      | object slot => simp [finish, Site.rest, nil_mem_mul, nil_notMem_token]
  | keys site body entry => simp [rest, finish, nil_mem_mul, nil_notMem_itemTail]
  | value site body entry => simp [rest, finish, nil_mem_mul, nil_notMem_value]
  | list slot elements => simp [rest, finish, nil_mem_mul, nil_notMem_token]

end Step

mutual

theorem Site.exists_mem_rest : (site : Site) → ∃ kinds, kinds ∈ site.rest
  | .document => ⟨[], rfl⟩
  | .object slot => exists_mem_mul.mpr ⟨⟨[.closeBrace], rfl⟩, slot.exists_mem_rest⟩

theorem Slot.exists_mem_rest : (slot : Slot) → ∃ kinds, kinds ∈ slot.rest
  | .item site _ _ => exists_mem_mul.mpr ⟨⟨[], nil_mem_optional⟩,
      exists_mem_mul.mpr ⟨⟨[], nil_mem_body⟩, site.exists_mem_rest⟩⟩
  | .element slot _ => exists_mem_mul.mpr ⟨⟨[], nil_mem_more⟩,
      exists_mem_mul.mpr ⟨⟨[.closeBracket], rfl⟩, slot.exists_mem_rest⟩⟩

end

/-- From every reading point the document can be brought to an end. -/
theorem ReadingPoint.exists_mem_rest (point : ReadingPoint) : ∃ kinds, kinds ∈ point.rest := by
  cases point with
  | items site body =>
      refine exists_mem_mul.mpr ⟨⟨[], body.trailing.nil_mem_separator⟩, ?_⟩
      exact exists_mem_mul.mpr ⟨⟨[], nil_mem_body⟩, site.exists_mem_rest⟩
  | keys site body entry =>
      refine exists_mem_mul.mpr ⟨⟨[], Language.nil_mem_kstar _⟩, ?_⟩
      exact exists_mem_mul.mpr ⟨exists_mem_itemTail, (Slot.item site body entry).exists_mem_rest⟩
  | value site body entry =>
      refine exists_mem_mul.mpr ⟨⟨[], Language.nil_mem_kstar _⟩, ?_⟩
      exact exists_mem_mul.mpr ⟨exists_mem_value, (Slot.item site body entry).exists_mem_rest⟩
  | list slot elements =>
      refine exists_mem_mul.mpr ⟨⟨[], elements.nil_mem_remainder⟩, ?_⟩
      exact exists_mem_mul.mpr ⟨⟨[.closeBracket], rfl⟩, slot.exists_mem_rest⟩

namespace Assembly

/-- Tokens may stand next if assembling takes them all, and leads to where the rest may
follow. -/
theorem append_mem_rest_iff {assembly : Assembly} {tokens : List Token}
    {kinds : List TokenKind} :
    tokens.map Token.kind ++ kinds ∈ assembly.point.rest ↔
      ∃ after, assembly.run tokens = .ok after ∧ kinds ∈ after.point.rest := by
  induction tokens generalizing assembly with
  | nil => simp [run, pure, Except.pure]
  | cons token tokens ih =>
      rw [List.map_cons, List.cons_append,
        ReadingPoint.cons_mem_rest_iff assembly.lastLine]
      have hnext (next : ReadingPoint) := @ih ⟨next, token.stop.line⟩
      constructor
      · rintro ⟨next, hstep, hkinds⟩
        obtain ⟨after, hrun, hafter⟩ := (hnext next).mp hkinds
        exact ⟨after, run_cons_eq_ok.mpr ⟨next, hstep, hrun⟩, hafter⟩
      · rintro ⟨after, hrun, hafter⟩
        obtain ⟨next, hstep, hrun⟩ := run_cons_eq_ok.mp hrun
        exact ⟨next, hstep, (hnext next).mpr ⟨after, hrun, hafter⟩⟩

/-- Assembling stops at the first token that the reading point does not take. -/
theorem run_eq_error {assembly : Assembly} {tokens : List Token} {error : StructureError}
    (hrun : assembly.run tokens = .error error) :
    ∃ before token after middle fault, tokens = before ++ token :: after ∧
      assembly.run before = .ok middle ∧
      middle.point.step middle.lastLine token = .error fault ∧ error = ⟨fault, token.start⟩ := by
  induction tokens generalizing assembly with
  | nil => cases hrun
  | cons token tokens ih =>
      cases hstep : assembly.point.step assembly.lastLine token with
      | error fault =>
          rw [run, List.foldlM_cons, step, hstep] at hrun
          cases hrun
          exact ⟨[], token, tokens, assembly, fault, rfl, rfl, hstep, rfl⟩
      | ok next =>
          rw [run, List.foldlM_cons, step, hstep] at hrun
          obtain ⟨before, found, after, middle, fault, rfl, hbefore, hfault, herror⟩ := ih hrun
          exact ⟨token :: before, found, after, middle, fault, rfl,
            run_cons_eq_ok.mpr ⟨next, hstep, hbefore⟩, hfault, herror⟩

end Assembly

theorem Assembly.rest_start : start.point.rest = language .body := by
  simp [start, ReadingPoint.rest, Trailing.separator, Site.rest]

theorem ReadingPoint.step_ne_ok_of_ending {point next : ReadingPoint} {lastLine : Nat}
    {token : Token} (hkind : token.kind = .ending) : point.step lastLine token ≠ .ok next := by
  cases point with
  | items site body => simp [step, hkind, TokenKind.keyKind?]
  | keys site body entry => simp [step, hkind, TokenKind.keyKind?]
  | value site body entry => simp [step, hkind, Slot.start]
  | list slot elements =>
      cases hawaits : elements.awaitsComma <;> simp [step, hkind, hawaits, Slot.start]

/-- A document can begin with these kinds: a body, closed by the end of the source, does. -/
def Grammar.Viable (kinds : List TokenKind) : Prop :=
  ∃ body ∈ language .body, kinds <+: body ++ [.ending]

theorem Grammar.viable_of_append_mem {kinds more : List TokenKind}
    (hmem : kinds ++ more ∈ language .body) : Viable kinds := by
  refine ⟨kinds ++ more, hmem, ?_⟩
  rw [List.append_assoc]
  exact List.prefix_append _ _

/-- What ends a beginning of a document stands in its body, or is the end of the source. -/
theorem Grammar.Viable.of_concat {kinds : List TokenKind} {kind : TokenKind}
    (hviable : Viable (kinds ++ [kind])) :
    (∃ more, kinds ++ kind :: more ∈ language .body) ∨
      kind = .ending ∧ kinds ∈ language .body := by
  obtain ⟨body, hbody, behind, heq⟩ := hviable
  -- The ending stands behind the whole body, so it is reached only if nothing is left.
  cases behind using List.reverseRecOn with
  | nil =>
      rw [List.append_nil] at heq
      obtain ⟨rfl, hkind⟩ := List.append_inj' heq rfl
      exact .inr ⟨List.head_eq_of_cons_eq hkind, hbody⟩
  | append_singleton more last =>
      rw [← List.append_assoc] at heq
      obtain ⟨rfl, -⟩ := List.append_inj' heq rfl
      rw [List.append_assoc] at hbody
      exact .inl ⟨more, hbody⟩

namespace Assembly

variable {before : List Token} {middle : Assembly} (hbefore : start.run before = .ok middle)
include hbefore

theorem viable : Viable (before.map Token.kind) := by
  obtain ⟨kinds, hkinds⟩ := middle.point.exists_mem_rest
  have hall : before.map Token.kind ++ kinds ∈ start.point.rest :=
    append_mem_rest_iff.mpr ⟨middle, hbefore, hkinds⟩
  rw [rest_start] at hall
  exact viable_of_append_mem hall

theorem append_mem_body_iff {kinds : List TokenKind} :
    before.map Token.kind ++ kinds ∈ language .body ↔ kinds ∈ middle.point.rest := by
  rw [← rest_start, append_mem_rest_iff, hbefore]
  simp

/-- A token that is not taken begins no document with those before it. -/
theorem not_viable {token : Token}
    (hstep : ∀ next, middle.point.step middle.lastLine token ≠ .ok next)
    (hfinish : token.kind = .ending → ∀ body, middle.point.finish ≠ .ok body) :
    ¬ Viable ((before ++ [token]).map Token.kind) := by
  intro hviable
  rw [List.map_append] at hviable
  rcases hviable.of_concat with ⟨more, hmore⟩ | ⟨hkind, hbody⟩
  · rw [append_mem_body_iff hbefore] at hmore
    obtain ⟨next, hnext, -⟩ := (ReadingPoint.cons_mem_rest_iff middle.lastLine).mp hmore
    exact hstep next hnext
  · rw [← List.append_nil (before.map Token.kind), append_mem_body_iff hbefore] at hbody
    obtain ⟨body, hbody⟩ := ReadingPoint.nil_mem_rest_iff.mp hbody
    exact hfinish hkind body hbody

end Assembly

namespace TokenStream

theorem exists_assemble_iff {stream : TokenStream} :
    (∃ body, stream.assemble = .ok body) ↔ stream.tokens.map Token.kind ∈ language .body := by
  rw [← List.append_nil (stream.tokens.map Token.kind), ← Assembly.rest_start,
    Assembly.append_mem_rest_iff]
  simp only [ReadingPoint.nil_mem_rest_iff]
  constructor
  · rintro ⟨body, hbody⟩
    obtain ⟨after, hrun, hfinish⟩ := Except.bind_eq_ok.mp hbody
    obtain ⟨opened, hpoint, -⟩ := Assembly.finish_eq_ok.mp hfinish
    exact ⟨after, hrun, opened.close, by rw [hpoint]; rfl⟩
  · rintro ⟨after, hrun, body, hfinish⟩
    refine ⟨body, Except.bind_eq_ok.mpr ⟨after, hrun, ?_⟩⟩
    rw [Assembly.finish, hfinish]

/-- Tokens that are not assembled fail at the first one with which no document begins. -/
theorem assemble_eq_error {stream : TokenStream} {error : StructureError}
    (hkinds : ∀ token ∈ stream.tokens, token.kind ≠ .ending)
    (herror : stream.assemble = .error error) :
    ∃ before token after, stream.toList = before ++ token :: after ∧
      Viable (before.map Token.kind) ∧ ¬ Viable ((before ++ [token]).map Token.kind) ∧
      error.position = token.start := by
  rw [assemble] at herror
  -- The first token that is not taken is one of the tokens, or the ending behind them.
  cases hrun : Assembly.start.run stream.tokens with
  | error early =>
      rw [hrun] at herror
      cases herror
      obtain ⟨before, token, after, middle, fault, htokens, hbefore, hfault, rfl⟩ :=
        Assembly.run_eq_error hrun
      refine ⟨before, token, after ++ [stream.ending], by simp [toList, htokens],
        Assembly.viable hbefore, Assembly.not_viable hbefore (by simp [hfault]) ?_, rfl⟩
      intro hkind
      exact absurd hkind (hkinds token (by simp [htokens]))
  | ok middle =>
      rw [hrun] at herror
      change middle.finish stream.stop = .error error at herror
      rw [Assembly.finish] at herror
      cases hfinish : middle.point.finish with
      | ok body =>
          rw [hfinish] at herror
          cases herror
      | error fault =>
          rw [hfinish] at herror
          cases herror
          exact ⟨stream.tokens, stream.ending, [], rfl, Assembly.viable hrun,
            Assembly.not_viable hrun (fun next => ReadingPoint.step_ne_ok_of_ending rfl)
              (by simp [hfinish]), rfl⟩

end TokenStream

namespace Document

theorem parse_of_scan {source : String} {stream : TokenStream}
    (hscan : TokenStream.scan source = .ok stream) : parse source =
      (stream.assemble.mapError .structural).map fun body => ⟨body, some source⟩ := by
  rw [parse, hscan]
  rfl

theorem exists_parse_iff_mem_body {source : String} {stream : TokenStream}
    (hscan : TokenStream.scan source = .ok stream) :
    (∃ document, parse source = .ok document) ↔
      stream.tokens.map Token.kind ∈ language .body := by
  rw [← TokenStream.exists_assemble_iff, parse_of_scan hscan]
  cases stream.assemble with
  | error error => simp [Except.mapError, Except.map]
  | ok body => simp [Except.mapError, Except.map]

/-- A source whose tokens form a body is a document, wherever its lines break. In any other
the fault is at the first token with which, behind those before it, no document begins. -/
theorem parse_follows_grammar {source : String} {stream : TokenStream}
    (hscan : TokenStream.scan source = .ok stream) :
    ((∃ document, parse source = .ok document) ↔
      stream.tokens.map Token.kind ∈ language .body) ∧
    (stream.tokens.map Token.kind ∉ language .body →
      ∃ before token after fault, stream.toList = before ++ token :: after ∧
        Viable (before.map Token.kind) ∧ ¬ Viable ((before ++ [token]).map Token.kind) ∧
        parse source = .error (.structural ⟨fault, token.start⟩)) ∧
    ∀ other others, TokenStream.scan other = .ok others →
      others.tokens.map Token.kind = stream.tokens.map Token.kind →
        ((∃ document, parse other = .ok document) ↔ ∃ document, parse source = .ok document) := by
  refine ⟨exists_parse_iff_mem_body hscan, ?_, ?_⟩
  · intro hkinds
    have hending (token : Token) (htoken : token ∈ stream.tokens) : token.kind ≠ .ending := by
      obtain ⟨_, rest, -, hreads, -⟩ := TokenStream.reads_of_scanFrom hscan htoken
      exact hreads.ne_ending
    cases hassemble : stream.assemble with
    | ok body => exact absurd (TokenStream.exists_assemble_iff.mp ⟨body, hassemble⟩) hkinds
    | error error =>
        obtain ⟨fault, position⟩ := error
        obtain ⟨before, token, after, hsplit, hviable, hbad, rfl⟩ :=
          TokenStream.assemble_eq_error hending hassemble
        refine ⟨before, token, after, fault, hsplit, hviable, hbad, ?_⟩
        rw [parse_of_scan hscan, hassemble]
        rfl
  · intro other others hother hkinds
    rw [exists_parse_iff_mem_body hscan, exists_parse_iff_mem_body hother, hkinds]

/-- A list whose second element stands behind a comment where a comma is missing. -/
theorem parse_fails_at_missing_comma : ∃ stream,
    TokenStream.scan "a = [\n  1 # x\n  2,\n]\n" = .ok stream ∧
      ∃ before token after fault, stream.toList = before ++ token :: after ∧
        Viable (before.map Token.kind) ∧ ¬ Viable ((before ++ [token]).map Token.kind) ∧
        parse "a = [\n  1 # x\n  2,\n]\n" = .error (.structural ⟨fault, token.start⟩) := by
  obtain ⟨stream, hscan, hfails⟩ := Except.exists_of_map
    (x := TokenStream.scan "a = [\n  1 # x\n  2,\n]\n")
    (p := fun stream => !stream.assemble.isOk) (by decide +kernel)
  have hkinds : stream.tokens.map Token.kind ∉ language .body := by
    rw [← TokenStream.exists_assemble_iff]
    rintro ⟨body, hbody⟩
    rw [hbody] at hfails
    cases hfails
  exact ⟨stream, hscan, (parse_follows_grammar hscan).2.1 hkinds⟩

end Document

end HclEditor
