import Mathlib
import HclEditor.Proofs.Query.Syntax

/-!
# Where reading a query stops

What may follow the beginning of a query is decided by how far its last segment has come:
whether a name has been begun there, or a label, or the bracket behind the label has been
closed. Reading stops at the first character that no query can have there, or at the end of
what is only the beginning of a query.
-/

namespace HclEditor

open QueryToken

namespace Query

/-- How far the last segment of the beginning of a query has come. -/
inductive Progress where
  | segment
  | named
  | label
  | labeled
  | closed
deriving DecidableEq, Repr

namespace Progress

/-- How far the segment has come behind one more token, if a query can have it there. -/
def take? : Progress → QueryTokenKind → Option Progress
  | .segment, .name => some .named
  | .named, .dot => some .segment
  | .named, .openBracket => some .label
  | .label, .name => some .labeled
  | .labeled, .closeBracket => some .closed
  | .closed, .dot => some .segment
  | _, _ => none

/-- The tokens that a query can have next. -/
def expected : Progress → List QueryTokenKind
  | .segment => [.name]
  | .named => [.dot, .openBracket]
  | .label => [.name]
  | .labeled => [.closeBracket]
  | .closed => [.dot]

/-- How far the segment has come behind one more character. Characters that are no mark begin
a name or continue it. -/
def next? (progress : Progress) (c : Char) : Option Progress :=
  match QueryTokenKind.ofChar? c, progress with
  | some kind, _ => progress.take? kind
  | none, .segment => some .named
  | none, .named => some .named
  | none, .label => some .labeled
  | none, .labeled => some .labeled
  | none, .closed => none

/-- How far the segment has come behind more characters. -/
def run? (progress : Progress) (cs : List Char) : Option Progress :=
  cs.foldlM next? progress

/-- Characters that complete the query. -/
def completion : Progress → String
  | .segment => "a"
  | .named => ""
  | .label => "a].a"
  | .labeled => "].a"
  | .closed => ".a"

theorem take?_eq_none_iff {progress : Progress} {kind : QueryTokenKind} :
    progress.take? kind = none ↔ kind ∉ progress.expected := by
  cases progress <;> cases kind <;> decide

@[simp] theorem run?_nil (progress : Progress) : progress.run? [] = some progress :=
  rfl

@[simp] theorem run?_cons (progress : Progress) (c : Char) (cs : List Char) :
    progress.run? (c :: cs) = (progress.next? c).bind (·.run? cs) :=
  rfl

theorem run?_append (progress : Progress) (first second : List Char) :
    progress.run? (first ++ second) = (progress.run? first).bind (·.run? second) :=
  List.foldlM_append

theorem run?_completion (progress : Progress) :
    progress.run? progress.completion.toList = some .named := by
  cases progress <;> decide

/-- The progress that a name leaves, wherever one is awaited. -/
theorem run?_name {text : String} (hname : IsQueryName text) {progress next : Progress}
    (htake : progress.take? .name = some next) : progress.run? text.toList = some next := by
  obtain ⟨c, cs, htext⟩ := List.exists_cons_of_ne_nil
    (mt String.toList_eq_nil_iff.mp hname.ne_empty)
  obtain ⟨hc, hcs⟩ := List.forall_mem_cons.mp (htext ▸ hname.plain)
  have hinside : named.run? cs = some .named ∧ labeled.run? cs = some .labeled := by
    clear htext
    induction cs with
    | nil => exact ⟨rfl, rfl⟩
    | cons d cs ih =>
        obtain ⟨hd, hcs⟩ := List.forall_mem_cons.mp hcs
        simpa [next?, QueryTokenKind.ofChar?_eq_none_iff.mpr hd] using ih hcs
  rw [htext, run?_cons]
  cases progress <;> cases htake <;>
    simp [next?, QueryTokenKind.ofChar?_eq_none_iff.mpr hc, hinside]

theorem next?_mark {kind : QueryTokenKind} {c : Char} (hkind : kind.mark? = some c)
    (progress : Progress) : progress.next? c = progress.take? kind := by
  cases progress <;> simp [next?, QueryTokenKind.ofChar?_eq_some_iff.mpr hkind]

/-- A token leads on as its characters do. -/
theorem run?_chars {token : QueryToken} (hproper : token.Proper) {progress next : Progress}
    (htake : progress.take? token.kind = some next) : progress.run? token.chars = some next := by
  cases hmark : token.kind.mark? with
  | some c => rw [chars_of_mark hmark, run?_cons, next?_mark hmark, htake]; rfl
  | none =>
      cases hkind : token.kind <;> rw [hkind] at hmark htake <;> try cases hmark
      · rw [chars_of_name hkind]
        exact run?_name (hproper hkind) htake
      · cases progress <;> cases htake

/-- A name has been begun, which further characters would continue. -/
def InName (progress : Progress) : Prop :=
  progress = .named ∨ progress = .labeled

theorem InName.kind_eq {progress next : Progress} {kind : QueryTokenKind}
    (htake : progress.take? kind = some next) (hnext : next.InName) : kind = .name := by
  cases progress <;> cases kind <;> cases htake <;> simp_all [InName]

/-- A token that cannot follow has a first character that cannot, if it would not continue a
name. -/
theorem exists_next?_eq_none {token : QueryToken} (hproper : token.Proper)
    (hending : token.kind ≠ .ending) {progress : Progress}
    (hname : progress.InName → token.kind ≠ .name) (htake : progress.take? token.kind = none) :
    ∃ c cs, token.chars = c :: cs ∧ progress.next? c = none := by
  by_cases hkind : token.kind = .name
  · obtain ⟨hne, hplain⟩ := hproper hkind
    obtain ⟨c, cs, htext⟩ := List.exists_cons_of_ne_nil (mt String.toList_eq_nil_iff.mp hne)
    refine ⟨c, cs, by rw [chars_of_name hkind, htext], ?_⟩
    have hc : c ∉ ['[', ']', '.'] := hplain c (by simp [htext])
    rw [hkind] at htake
    cases progress with
    | closed => simp [next?, QueryTokenKind.ofChar?_eq_none_iff.mpr hc]
    | named => exact absurd hkind (hname (.inl rfl))
    | labeled => exact absurd hkind (hname (.inr rfl))
    | _ => cases htake
  · obtain ⟨c, hmark⟩ : ∃ c, token.kind.mark? = some c := by
      cases hmark : token.kind <;> simp_all [QueryTokenKind.mark?]
    exact ⟨c, [], chars_of_mark hmark, by rw [next?_mark hmark, htake]⟩

end Progress

/-- Where reading tokens stops, if they are no query: at the first one that cannot follow, or
at the end of the text. -/
def stop? (text : String) : Progress → List QueryToken → Option Nat
  | progress, [] => if progress = .named then none else some text.utf8ByteSize
  | progress, token :: tokens =>
      match progress.take? token.kind with
      | some next => stop? text next tokens
      | none => some token.start

theorem stop?_cons {text : String} {progress next : Progress} {token : QueryToken}
    (htake : progress.take? token.kind = some next) (tokens : List QueryToken) :
    stop? text progress (token :: tokens) = stop? text next tokens := by
  rw [stop?, htake]

theorem stop?_cons_of_not_mem {text : String} {progress : Progress} {token : QueryToken}
    (htoken : token.kind ∉ progress.expected) (tokens : List QueryToken) :
    stop? text progress (token :: tokens) = some token.start := by
  rw [stop?, Progress.take?_eq_none_iff.mpr htoken]

/-- Reading tokens succeeds if they do not stop it, and fails where they do. -/
theorem stop?_eq (text : String) (tokens : List QueryToken) :
    stop? text .segment tokens =
      match parseTokens text tokens with
      | .ok _ => none
      | .error error => some error.position := by
  have hnamed {name : QueryToken} (hname : ¬name.kind ≠ .name) (tokens : List QueryToken) :
      stop? text .segment (name :: tokens) = stop? text .named tokens :=
    stop?_cons (by rw [not_not.mp hname]; rfl) tokens
  have hbegun {opening : QueryToken} (hopening : opening.kind = .openBracket)
      (tokens : List QueryToken) :
      stop? text .named (opening :: tokens) = stop? text .label tokens :=
    stop?_cons (by rw [hopening]; rfl) tokens
  have hlabeled {label : QueryToken} (hlabel : ¬label.kind ≠ .name) (tokens : List QueryToken) :
      stop? text .label (label :: tokens) = stop? text .labeled tokens :=
    stop?_cons (by rw [not_not.mp hlabel]; rfl) tokens
  have hclosed {closing : QueryToken} (hclosing : ¬closing.kind ≠ .closeBracket)
      (tokens : List QueryToken) :
      stop? text .labeled (closing :: tokens) = stop? text .closed tokens :=
    stop?_cons (by rw [not_not.mp hclosing]; rfl) tokens
  fun_induction parseTokens text tokens
  case case1 => rfl
  case case2 token tokens hname => exact stop?_cons_of_not_mem (by simpa [Progress.expected]) _
  case case3 name hname =>
    rw [hnamed hname]
    rfl
  case case4 name hname dot tokens hdot ih =>
    have hnext : stop? text .named (dot :: tokens) = stop? text .segment tokens :=
      stop?_cons (by rw [hdot]; rfl) tokens
    rw [hnamed hname, hnext, ih]
    cases parseTokens text tokens <;> rfl
  case case5 name hname opening hopening =>
    rw [hnamed hname, hbegun hopening]
    rfl
  case case6 name hname opening hopening token tokens htoken =>
    rw [hnamed hname, hbegun hopening, stop?_cons_of_not_mem (by simpa [Progress.expected])]
    rfl
  case case7 name hname opening hopening label hlabel =>
    rw [hnamed hname, hbegun hopening, hlabeled hlabel]
    rfl
  case case8 name hname opening hopening label hlabel token tokens htoken =>
    rw [hnamed hname, hbegun hopening, hlabeled hlabel,
      stop?_cons_of_not_mem (by simpa [Progress.expected])]
  case case9 name hname opening hopening label hlabel closing hclosing =>
    rw [hnamed hname, hbegun hopening, hlabeled hlabel, hclosed hclosing]
    rfl
  case case10 name hname opening hopening label hlabel closing hclosing token tokens htoken =>
    rw [hnamed hname, hbegun hopening, hlabeled hlabel, hclosed hclosing,
      stop?_cons_of_not_mem (by simpa [Progress.expected])]
  case case11 name hname opening hopening label hlabel closing hclosing dot tokens hdot ih =>
    have hnext : stop? text .closed (dot :: tokens) = stop? text .segment tokens :=
      stop?_cons (by rw [not_not.mp hdot]; rfl) tokens
    rw [hnamed hname, hbegun hopening, hlabeled hlabel, hclosed hclosing, hnext, ih]
    cases parseTokens text tokens <;> rfl
  case case12 name hname token tokens hdot hbracket =>
    rw [hnamed hname,
      stop?_cons_of_not_mem (by simpa [Progress.expected] using ⟨hdot, hbracket⟩)]
    rfl

/-- An error shows the query that was read. -/
theorem query_of_parseTokens {text : String} {tokens : List QueryToken} {error : QueryError}
    (hparse : parseTokens text tokens = .error error) : error.query = text := by
  fun_induction parseTokens text tokens
  case case3 => cases hparse
  case case4 ih => exact ih (Except.map_eq_error.mp hparse)
  case case11 ih => exact ih (Except.map_eq_error.mp hparse)
  all_goals
    cases hparse
    rfl

section Tiled

variable {text : String} {offset : Nat} {progress : Progress} {tokens : List QueryToken}

/-- Where no token stops reading, the characters of the tokens lead to the end of a query. -/
theorem run?_of_stop?_eq_none (htiles : Tiles offset tokens)
    (hstop : stop? text progress tokens = none) :
    progress.run? (tokens.flatMap chars) = some .named := by
  induction tokens generalizing offset progress with
  | nil =>
      rw [stop?, ite_eq_left_iff] at hstop
      by_contra hrun
      cases hstop fun hprogress => hrun (congrArg some hprogress)
  | cons token tokens ih =>
      obtain ⟨-, -, hproper, -, -, htiles⟩ := htiles
      cases htake : progress.take? token.kind with
      | none => rw [stop?, htake] at hstop; cases hstop
      | some next =>
          rw [stop?_cons htake] at hstop
          rw [List.flatMap_cons, Progress.run?_append, Progress.run?_chars hproper htake]
          exact ih htiles hstop

/-- Where tokens stop reading, the characters in front of that place can begin a query, but
no query ends there, and the next character cannot follow. -/
theorem exists_of_stop?_eq_some (htiles : Tiles offset tokens)
    (hlength : offset + (String.ofList (tokens.flatMap chars)).utf8ByteSize = text.utf8ByteSize)
    (hname : progress.InName → ∀ token ∈ tokens.head?, token.kind ≠ .name) {position : Nat}
    (hstop : stop? text progress tokens = some position) :
    ∃ before after reached, tokens.flatMap chars = before ++ after ∧
      position = offset + (String.ofList before).utf8ByteSize ∧
      progress.run? before = some reached ∧ (after = [] → reached ≠ .named) ∧
      ∀ c ∈ after.head?, reached.next? c = none := by
  induction tokens generalizing offset progress with
  | nil =>
      rw [stop?] at hstop
      split at hstop
      · cases hstop
      next hprogress =>
        cases hstop
        exact ⟨[], [], progress, rfl, by simpa using hlength.symm, rfl, fun _ => hprogress,
          by simp⟩
  | cons token tokens ih =>
      obtain ⟨rfl, htoken, hproper, hending, hnext, htiles⟩ := htiles
      cases htake : progress.take? token.kind with
      | none =>
          rw [stop?, htake] at hstop
          cases hstop
          obtain ⟨c, cs, hchars, hc⟩ := Progress.exists_next?_eq_none hproper hending
            (fun hinside => hname hinside token rfl) htake
          refine ⟨[], c :: (cs ++ tokens.flatMap chars), progress, ?_, by simp, rfl, nofun, ?_⟩
          · rw [List.flatMap_cons, hchars]
            rfl
          · rintro d ⟨⟩
            exact hc
      | some next =>
          rw [stop?_cons htake] at hstop
          rw [List.flatMap_cons, String.ofList_append, String.utf8ByteSize_append, ← Nat.add_assoc,
            ← htoken] at hlength
          obtain ⟨before, after, reached, hsplit, rfl, hrun, hend, hafter⟩ := ih htiles hlength
            (fun hinside => hnext (Progress.InName.kind_eq htake hinside)) hstop
          refine ⟨token.chars ++ before, after, reached, ?_, ?_, ?_, hend, hafter⟩
          · rw [List.flatMap_cons, hsplit, List.append_assoc]
          · rw [htoken, String.ofList_append, String.utf8ByteSize_append, Nat.add_assoc]
          · rw [Progress.run?_append, Progress.run?_chars hproper htake]
            exact hrun

end Tiled

/-- Where no query can be read, the characters in front of the error can begin a query, but no
query ends there, and the next character cannot follow. -/
theorem exists_of_parse_eq_error {text : String} {error : QueryError}
    (hparse : parse text = .error error) :
    ∃ before after reached, text.toList = before ++ after ∧
      error.position = (String.ofList before).utf8ByteSize ∧
      Progress.segment.run? before = some reached ∧ (after = [] → reached ≠ .named) ∧
      ∀ c ∈ after.head?, reached.next? c = none := by
  have hchars := flatMap_chars_tokens text
  have hstop : stop? text .segment (tokens text) = some error.position := by
    rw [stop?_eq, show parseTokens text (tokens text) = _ from hparse]
  obtain ⟨before, after, reached, hsplit, hposition, hreached⟩ :=
    exists_of_stop?_eq_some (tiles_tokens text)
      (by rw [hchars, String.ofList_toList, Nat.zero_add]) (by simp [Progress.InName]) hstop
  exact ⟨before, after, reached, by rw [← hsplit, hchars], by rw [hposition, Nat.zero_add],
    hreached⟩

/-- A text is read as a query exactly if its characters lead to the end of one. -/
theorem exists_parse_eq_ok_iff {text : String} :
    (∃ query, parse text = .ok query) ↔ Progress.segment.run? text.toList = some .named := by
  constructor
  · rintro ⟨query, hparse⟩
    have hstop : stop? text .segment (tokens text) = none := by
      rw [stop?_eq, show parseTokens text (tokens text) = _ from hparse]
    have hrun := run?_of_stop?_eq_none (tiles_tokens text) hstop
    rwa [flatMap_chars_tokens] at hrun
  · intro hrun
    cases hparse : parse text with
    | ok query => exact ⟨query, rfl⟩
    | error error =>
        obtain ⟨before, after, reached, hsplit, -, hreached, hend, hafter⟩ :=
          exists_of_parse_eq_error hparse
        rw [hsplit, Progress.run?_append, hreached] at hrun
        cases after with
        | nil => exact absurd (Option.some.inj hrun) (hend rfl)
        | cons c after =>
            rw [Option.bind_some, Progress.run?_cons, hafter c rfl] at hrun
            cases hrun

/-- The text can be continued to a text that is read as a query. -/
def Viable (text : String) : Prop :=
  ∃ more query, parse (text ++ more) = .ok query

theorem viable_iff {text : String} :
    Viable text ↔ ∃ reached, Progress.segment.run? text.toList = some reached := by
  constructor
  · rintro ⟨more, hparse⟩
    rw [exists_parse_eq_ok_iff, String.toList_append, Progress.run?_append] at hparse
    obtain ⟨reached, hreached, -⟩ := Option.bind_eq_some_iff.mp hparse
    exact ⟨reached, hreached⟩
  · rintro ⟨reached, hreached⟩
    refine ⟨reached.completion, exists_parse_eq_ok_iff.mpr ?_⟩
    rw [String.toList_append, Progress.run?_append, hreached]
    exact reached.run?_completion

end Query

namespace QueryError

/-- The characters in front of a place are counted, however many bytes they have. -/
theorem charCount?_append (before after : List Char) :
    charCount? (String.ofList before).utf8ByteSize (before ++ after) = some before.length := by
  induction before with
  | nil => cases after <;> rfl
  | cons c before ih =>
      have hpos : c.utf8Size ≠ 0 := c.utf8Size_pos.ne'
      have hlength : (String.ofList (c :: before)).utf8ByteSize =
          c.utf8Size + (String.ofList before).utf8ByteSize := by
        rw [String.ofList_cons, String.utf8ByteSize_append, String.utf8ByteSize_singleton]
      rw [List.cons_append, charCount?, hlength, if_neg (by omega), if_pos (by omega),
        Nat.add_sub_cancel_left, ih]
      rfl

end QueryError

namespace Query

/-- A text that is read as no query is at fault where the error says: the text in front of that
place can be continued to a query, and with the next character, if there is one, it cannot. The
caret is below that character, behind a blank for each character in front of it. -/
theorem position_of_parse_eq_error {text : String} {error : QueryError}
    (hparse : parse text = .error error) :
    ∃ before after, text = before ++ after ∧ error.position = before.utf8ByteSize ∧
      Viable before ∧ (∀ c ∈ after.toList.head?, ¬ Viable (before.push c)) ∧
      error.pointer =
        "  " ++ text ++ "\n  " ++ String.ofList (List.replicate before.length ' ') ++ "^" := by
  obtain ⟨before, after, reached, hsplit, hposition, hreached, -, hafter⟩ :=
    exists_of_parse_eq_error hparse
  have htext : text = String.ofList before ++ String.ofList after := by
    rw [← String.ofList_append, ← hsplit, String.ofList_toList]
  refine ⟨String.ofList before, String.ofList after, htext, hposition, ?_, ?_, ?_⟩
  · rw [viable_iff, String.toList_ofList]
    exact ⟨reached, hreached⟩
  · intro c hc
    rw [String.toList_ofList] at hc
    rw [viable_iff, String.toList_push, String.toList_ofList, Progress.run?_append, hreached]
    rintro ⟨beyond, hbeyond⟩
    rw [Option.bind_some, Progress.run?_cons, hafter c hc] at hbeyond
    cases hbeyond
  · have hle : error.position ≤ text.utf8ByteSize := by
      rw [hposition, htext, String.utf8ByteSize_append]
      exact Nat.le_add_right _ _
    rw [QueryError.pointer, query_of_parseTokens hparse, Nat.min_eq_left hle, hsplit, hposition,
      QueryError.charCount?_append, String.length_ofList]
    rfl

/-- The bracket of `é[x.y` is not closed at byte 4, which is below its fourth character. -/
theorem position_of_unclosed_bracket :
    parse "é[x.y" = .error ⟨"é[x.y", 4, .expectedBracket⟩ ∧
      ∃ before after, "é[x.y" = before ++ after ∧ 4 = before.utf8ByteSize ∧
        Viable before ∧ (∀ c ∈ after.toList.head?, ¬ Viable (before.push c)) ∧
        QueryError.pointer ⟨"é[x.y", 4, .expectedBracket⟩ =
          "  " ++ "é[x.y" ++ "\n  " ++
            String.ofList (List.replicate before.length ' ') ++ "^" := by
  have hparse : parse "é[x.y" = .error ⟨"é[x.y", 4, .expectedBracket⟩ := by decide +kernel
  exact ⟨hparse, position_of_parse_eq_error hparse⟩

end Query

end HclEditor
