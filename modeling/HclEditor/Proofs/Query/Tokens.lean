import Mathlib
import HclEditor.Query.Token
import HclEditor.Proofs.Lexeme.Line

/-!
# Tokens tile a query

The tokens of a query, written one behind the other, are the query. A mark is always a
token of its own, and a name is as long as it can be, so the tokens of a text that starts
with a token are that token and the tokens of the rest. The single pass that cuts a query
into tokens holds back the name that it is in; with that name in front of the characters
that are left, these have just the tokens that it still finds.
-/

namespace HclEditor

open Lexeme

/-- A text that may be a name in a query: it has a character, and no mark. -/
structure IsQueryName (text : String) : Prop where
  ne_empty : text ≠ ""
  plain : ∀ c ∈ text.toList, c ∉ ['[', ']', '.']

namespace QueryTokenKind

/-- The mark that tokens of this kind are, if they are marks. -/
def mark? : QueryTokenKind → Option Char
  | .openBracket => some '['
  | .closeBracket => some ']'
  | .dot => some '.'
  | _ => none

theorem ofChar?_eq_some_iff {c : Char} {kind : QueryTokenKind} :
    ofChar? c = some kind ↔ kind.mark? = some c := by
  rw [ofChar?.eq_def]
  cases kind <;> split <;> simp_all [mark?, eq_comm]

theorem ofChar?_eq_none_iff {c : Char} : ofChar? c = none ↔ c ∉ ['[', ']', '.'] := by
  rw [ofChar?.eq_def]
  split <;> simp_all

theorem exists_mark?_eq {c : Char} (hmark : c ∈ ['[', ']', '.']) :
    ∃ kind : QueryTokenKind, kind.mark? = some c := by
  have hsome : ofChar? c ≠ none := fun hnone => ofChar?_eq_none_iff.mp hnone hmark
  obtain ⟨kind, hkind⟩ := Option.ne_none_iff_exists'.mp hsome
  exact ⟨kind, ofChar?_eq_some_iff.mp hkind⟩

/-- A mark takes a single byte. -/
theorem utf8Size_of_mark? {kind : QueryTokenKind} {c : Char} (hkind : kind.mark? = some c) :
    c.utf8Size = 1 := by
  cases kind <;> cases hkind <;> rfl

end QueryTokenKind

namespace QueryToken

/-- Puts the character at an offset in front of the tokens behind it. It becomes a token,
or a name's first character. -/
def consChar (offset : Nat) (c : Char) (tokens : List QueryToken) : List QueryToken :=
  match QueryTokenKind.ofChar? c, tokens with
  | some kind, tokens => ⟨kind, "", offset, offset + c.utf8Size⟩ :: tokens
  | none, ⟨.name, text, _, stop⟩ :: tokens =>
      ⟨.name, String.singleton c ++ text, offset, stop⟩ :: tokens
  | none, tokens => ⟨.name, String.singleton c, offset, offset + c.utf8Size⟩ :: tokens

/-- The tokens of a text that starts at an offset, without the ending. -/
def tokensFrom (offset : Nat) : List Char → List QueryToken
  | [] => []
  | c :: cs => consChar offset c (tokensFrom (offset + c.utf8Size) cs)

/-- The characters of the query that the token takes. -/
def chars (token : QueryToken) : List Char :=
  match token.kind with
  | .name => token.text.toList
  | kind => kind.mark?.toList

/-- The token is no name without characters, and no name with a mark in it. -/
def Proper (token : QueryToken) : Prop :=
  token.kind = .name → IsQueryName token.text

section ConsChar

variable {c : Char} (offset : Nat)

theorem consChar_mark {kind : QueryTokenKind} (hkind : kind.mark? = some c)
    (tokens : List QueryToken) :
    consChar offset c tokens = ⟨kind, "", offset, offset + c.utf8Size⟩ :: tokens := by
  simp [consChar, QueryTokenKind.ofChar?_eq_some_iff.mpr hkind]

variable (hplain : c ∉ ['[', ']', '.'])
include hplain

/-- A plain character lengthens the name behind it. -/
theorem consChar_name (text : String) (start stop : Nat) (tokens : List QueryToken) :
    consChar offset c (⟨.name, text, start, stop⟩ :: tokens) =
      ⟨.name, String.singleton c ++ text, offset, stop⟩ :: tokens := by
  simp [consChar, QueryTokenKind.ofChar?_eq_none_iff.mpr hplain]

/-- A plain character is a name by itself if there is no name behind it. -/
theorem consChar_plain {tokens : List QueryToken}
    (htokens : ∀ token ∈ tokens.head?, token.kind ≠ .name) :
    consChar offset c tokens =
      ⟨.name, String.singleton c, offset, offset + c.utf8Size⟩ :: tokens := by
  have hnone := QueryTokenKind.ofChar?_eq_none_iff.mpr hplain
  cases tokens with
  | nil => simp [consChar, hnone]
  | cons token tokens =>
      obtain ⟨kind, text, start, stop⟩ := token
      have hkind : kind ≠ .name := htokens _ rfl
      cases kind <;> first | exact absurd rfl hkind | simp [consChar, hnone]

end ConsChar

theorem tokensFrom_mark {c : Char} (kind : QueryTokenKind) (hkind : kind.mark? = some c)
    (offset : Nat) (cs : List Char) :
    tokensFrom offset (c :: cs) =
      ⟨kind, "", offset, offset + c.utf8Size⟩ :: tokensFrom (offset + c.utf8Size) cs := by
  rw [tokensFrom, consChar_mark _ hkind]

/-- The text is empty or starts with a mark. -/
abbrev AtMark (rest : List Char) : Prop :=
  StartsIn (['[', ']', '.'].contains ·) rest

theorem atMark_cons {kind : QueryTokenKind} {c : Char} (hkind : kind.mark? = some c)
    (rest : List Char) : AtMark (c :: rest) := by
  apply startsIn_cons.mpr
  cases kind <;> cases hkind <;> rfl

/-- In front of a mark no name is cut off. -/
theorem AtMark.kind_ne_name {rest : List Char} (hrest : AtMark rest) (offset : Nat) :
    ∀ token ∈ (tokensFrom offset rest).head?, token.kind ≠ .name := by
  cases rest with
  | nil => simp [tokensFrom]
  | cons c rest =>
      obtain ⟨kind, hkind⟩ := QueryTokenKind.exists_mark?_eq (List.contains_iff_mem.mp
        (startsIn_cons.mp hrest))
      rw [tokensFrom_mark kind hkind]
      rintro token ⟨⟩ rfl
      cases hkind

/-- A name in front of a mark is one token. -/
theorem tokensFrom_name {name : String} (hname : IsQueryName name) {rest : List Char}
    (hrest : AtMark rest) (offset : Nat) :
    tokensFrom offset (name.toList ++ rest) =
      ⟨.name, name, offset, offset + name.utf8ByteSize⟩ ::
        tokensFrom (offset + name.utf8ByteSize) rest := by
  obtain ⟨hne, hplain⟩ := hname
  obtain ⟨cs, rfl⟩ : ∃ cs, name = String.ofList cs := ⟨_, String.ofList_toList.symm⟩
  rw [String.toList_ofList] at hplain ⊢
  -- The last character becomes a name by itself, and the ones before it lengthen that.
  induction cs generalizing offset with
  | nil => exact absurd rfl hne
  | cons c cs ih =>
      obtain ⟨hc, hcs⟩ := List.forall_mem_cons.mp hplain
      rw [String.ofList_cons, String.utf8ByteSize_append, String.utf8ByteSize_singleton,
        List.cons_append, tokensFrom, ← Nat.add_assoc]
      by_cases hempty : cs = []
      · subst hempty
        rw [List.nil_append, consChar_plain _ hc (hrest.kind_ne_name _)]
        simp
      · rw [ih _ (by simpa using hempty) hcs, consChar_name _ hc]

/-- One more character in front of some tokens is a mark, or lengthens the name that they
start with, or is a name by itself. -/
theorem consChar_cases (offset : Nat) (c : Char) (tokens : List QueryToken) :
    (∃ kind : QueryTokenKind, kind.mark? = some c ∧
      consChar offset c tokens = ⟨kind, "", offset, offset + c.utf8Size⟩ :: tokens) ∨
    c ∉ ['[', ']', '.'] ∧
      ((∃ text start stop more, tokens = ⟨.name, text, start, stop⟩ :: more ∧
        consChar offset c tokens = ⟨.name, String.singleton c ++ text, offset, stop⟩ :: more) ∨
      (∀ token ∈ tokens.head?, token.kind ≠ .name) ∧ consChar offset c tokens =
        ⟨.name, String.singleton c, offset, offset + c.utf8Size⟩ :: tokens) := by
  by_cases hmark : c ∈ ['[', ']', '.']
  · obtain ⟨kind, hkind⟩ := QueryTokenKind.exists_mark?_eq hmark
    exact .inl ⟨kind, hkind, consChar_mark offset hkind tokens⟩
  · refine .inr ⟨hmark, ?_⟩
    by_cases hname : ∀ token ∈ tokens.head?, token.kind ≠ .name
    · exact .inr ⟨hname, consChar_plain offset hmark hname⟩
    · push Not at hname
      obtain ⟨⟨kind, text, start, stop⟩, htoken, rfl⟩ := hname
      obtain ⟨more, rfl⟩ := List.head?_eq_some_iff.mp htoken
      exact .inl ⟨text, start, stop, more, rfl, consChar_name offset hmark text start stop more⟩

theorem chars_of_name {token : QueryToken} (hname : token.kind = .name) :
    token.chars = token.text.toList := by
  rw [chars, hname]

theorem chars_of_mark {token : QueryToken} {c : Char} (hmark : token.kind.mark? = some c) :
    token.chars = [c] := by
  rw [chars]
  cases hkind : token.kind <;> rw [hkind] at hmark <;> cases hmark <;> rfl

/-- Written one behind the other, the tokens of a text are the text. -/
theorem flatMap_chars_tokensFrom (offset : Nat) (cs : List Char) :
    (tokensFrom offset cs).flatMap chars = cs := by
  induction cs generalizing offset with
  | nil => rfl
  | cons c cs ih =>
      have hrest := ih (offset + c.utf8Size)
      rw [tokensFrom]
      rcases consChar_cases offset c (tokensFrom (offset + c.utf8Size) cs) with
        ⟨kind, hkind, hcons⟩ | ⟨-, ⟨text, start, stop, more, htokens, hcons⟩ | ⟨-, hcons⟩⟩
      · rw [hcons, List.flatMap_cons, hrest, chars_of_mark hkind, List.singleton_append]
      · rw [htokens, List.flatMap_cons, chars_of_name rfl] at hrest
        rw [hcons, List.flatMap_cons, chars_of_name rfl, String.toList_append,
          String.toList_singleton, List.append_assoc, hrest, List.singleton_append]
      · rw [hcons, List.flatMap_cons, hrest, chars_of_name rfl, String.toList_singleton,
          List.singleton_append]

theorem proper_tokensFrom (offset : Nat) (cs : List Char) :
    ∀ token ∈ tokensFrom offset cs, token.Proper := by
  induction cs generalizing offset with
  | nil => simp [tokensFrom]
  | cons c cs ih =>
      have hrest := ih (offset + c.utf8Size)
      rw [tokensFrom]
      rcases consChar_cases offset c (tokensFrom (offset + c.utf8Size) cs) with
        ⟨kind, hkind, hcons⟩ | ⟨hplain, ⟨text, start, stop, more, htokens, hcons⟩ | ⟨-, hcons⟩⟩
      · rw [hcons]
        refine List.forall_mem_cons.mpr ⟨?_, hrest⟩
        rintro rfl
        cases hkind
      · rw [htokens] at hrest
        obtain ⟨hname, hmore⟩ := List.forall_mem_cons.mp hrest
        rw [hcons]
        refine List.forall_mem_cons.mpr ⟨fun _ => ⟨by simp, ?_⟩, hmore⟩
        rw [String.toList_append, String.toList_singleton, List.singleton_append]
        exact List.forall_mem_cons.mpr ⟨hplain, (hname rfl).plain⟩
      · rw [hcons]
        refine List.forall_mem_cons.mpr ⟨fun _ => ⟨by simp, ?_⟩, hrest⟩
        rw [String.toList_singleton]
        exact List.forall_mem_singleton.mpr hplain

/-- From an offset on, each token starts where the one before it stops and is as long as its
characters. None is an ending, and no name follows a name. -/
def Tiles : Nat → List QueryToken → Prop
  | _, [] => True
  | offset, token :: tokens =>
      token.start = offset ∧ token.stop = offset + (String.ofList token.chars).utf8ByteSize ∧
        token.Proper ∧ token.kind ≠ .ending ∧
        (token.kind = .name → ∀ next ∈ tokens.head?, next.kind ≠ .name) ∧
        Tiles token.stop tokens

theorem tiles_tokensFrom (offset : Nat) (cs : List Char) : Tiles offset (tokensFrom offset cs) := by
  induction cs generalizing offset with
  | nil => trivial
  | cons c cs ih =>
      have hrest := ih (offset + c.utf8Size)
      have hproper := proper_tokensFrom offset (c :: cs)
      rw [tokensFrom] at hproper ⊢
      rcases consChar_cases offset c (tokensFrom (offset + c.utf8Size) cs) with
        ⟨kind, hkind, hcons⟩ | ⟨-, ⟨text, start, stop, more, htokens, hcons⟩ | ⟨hnext, hcons⟩⟩
      · rw [hcons] at hproper ⊢
        refine ⟨rfl, ?_, hproper _ List.mem_cons_self, ?_, ?_, hrest⟩
        · have hchars : chars ⟨kind, "", offset, offset + c.utf8Size⟩ = [c] := chars_of_mark hkind
          simp [hchars]
        · rintro rfl
          cases hkind
        · rintro rfl
          cases hkind
      · rw [htokens] at hrest
        obtain ⟨rfl, hstop, -, -, hnext, hmore⟩ := hrest
        rw [hcons] at hproper ⊢
        refine ⟨rfl, ?_, hproper _ List.mem_cons_self, by simp, hnext, hmore⟩
        rw [chars_of_name rfl] at hstop ⊢
        rw [String.ofList_toList] at hstop ⊢
        rw [String.utf8ByteSize_append, String.utf8ByteSize_singleton, hstop, Nat.add_assoc]
      · rw [hcons] at hproper ⊢
        refine ⟨rfl, ?_, hproper _ List.mem_cons_self, by simp, fun _ => hnext, hrest⟩
        rw [chars_of_name rfl, String.ofList_toList, String.utf8ByteSize_singleton]

end QueryToken

namespace Query

open QueryToken

namespace Lexing

/-- In front of a mark, the name that is being read is a token unless it has no character. -/
theorem close_append {state : Lexing} (hplain : ∀ c ∈ state.name.toList, c ∉ ['[', ']', '.'])
    {rest : List Char} (hrest : AtMark rest) :
    state.close ++ tokensFrom state.offset rest =
      state.found ++ tokensFrom state.start (state.name.toList ++ rest) := by
  by_cases hname : state.name = ""
  · simp [close, offset, hname]
  · rw [close, if_neg (by simpa using hname), tokensFrom_name ⟨hname, hplain⟩ hrest,
      List.append_assoc, List.singleton_append, offset]

theorem step_plain (state : Lexing) {c : Char} (hc : QueryTokenKind.ofChar? c = none) :
    state.step c = { state with name := state.name.push c } := by
  rw [step, hc]

theorem step_mark (state : Lexing) {c : Char} {kind : QueryTokenKind}
    (hc : QueryTokenKind.ofChar? c = some kind) :
    state.step c =
      { found := state.close ++ [⟨kind, "", state.offset, state.offset + 1⟩]
        start := state.offset + 1 } := by
  rw [step, hc]

/-- Reading on finds the tokens of the characters that are left, with the name that is being
read in front of them. -/
theorem close_foldl_step (cs : List Char) {state : Lexing}
    (hplain : ∀ c ∈ state.name.toList, c ∉ ['[', ']', '.']) :
    (cs.foldl step state).close =
      state.found ++ tokensFrom state.start (state.name.toList ++ cs) := by
  induction cs generalizing state with
  | nil =>
      have hclose := close_append hplain (startsIn_nil _)
      rwa [tokensFrom, List.append_nil] at hclose
  | cons c cs ih =>
      rw [List.foldl_cons]
      cases hc : QueryTokenKind.ofChar? c with
      | none =>
          have hlonger : ∀ other ∈ (state.name.push c).toList, other ∉ ['[', ']', '.'] := by
            intro other hother
            rw [String.toList_push, List.mem_append, List.mem_singleton] at hother
            rcases hother with hother | rfl
            · exact hplain other hother
            · exact QueryTokenKind.ofChar?_eq_none_iff.mp hc
          rw [state.step_plain hc, ih hlonger, String.toList_push, List.append_assoc,
            List.singleton_append]
      | some kind =>
          have hkind := QueryTokenKind.ofChar?_eq_some_iff.mp hc
          have hclose := close_append hplain (atMark_cons hkind cs)
          rw [tokensFrom_mark kind hkind, QueryTokenKind.utf8Size_of_mark? hkind] at hclose
          rw [state.step_mark hc, ih (by simp), ← hclose, List.append_assoc, List.singleton_append]
          rfl

end Lexing

/-- The pass through a query finds its tokens. -/
theorem tokens_eq_tokensFrom (query : String) : tokens query = tokensFrom 0 query.toList := by
  rw [tokens, Lexing.close_foldl_step _ (by simp)]
  rfl

theorem flatMap_chars_tokens (query : String) : (tokens query).flatMap chars = query.toList := by
  rw [tokens_eq_tokensFrom, flatMap_chars_tokensFrom]

theorem proper_tokens (query : String) : ∀ token ∈ tokens query, token.Proper := by
  rw [tokens_eq_tokensFrom]
  exact proper_tokensFrom 0 query.toList

theorem tiles_tokens (query : String) : Tiles 0 (tokens query) := by
  rw [tokens_eq_tokensFrom]
  exact tiles_tokensFrom 0 query.toList

end Query

end HclEditor
