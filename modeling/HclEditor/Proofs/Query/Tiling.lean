import Mathlib
import HclEditor.Proofs.Query.Tokens
import HclEditor.Proofs.Token.Tiling

/-!
# A query has one tiling

The tokens of a query lie on it end to end, and no two names lie side by side. Nothing else is
asked of them: from the beginning on, the query leaves no choice of where a token stops, since a
mark is one character and a name goes on to the next mark.
-/

namespace HclEditor

open Lexeme

namespace QueryToken

/-- What stands for the token in the query: the character of a mark, else the token's text. -/
def piece (token : QueryToken) : String :=
  match token.kind.mark? with
  | some c => .singleton c
  | none => token.text

/-- The text is in the query between the token's offsets. -/
def Spans (query : String) (token : QueryToken) (text : String) : Prop :=
  ∃ before after, query = before ++ text ++ after ∧ token.start = before.utf8ByteSize ∧
    token.stop = (before ++ text).utf8ByteSize

/-- The token is a mark at its character and has no text, or it is a name with the text between
its offsets, or it is the ending. -/
structure CutFrom (query : String) (token : QueryToken) : Prop where
  mark : ∀ c, token.kind.mark? = some c → token.text = "" ∧ token.Spans query (.singleton c)
  name : token.kind = .name → IsQueryName token.text ∧ token.Spans query token.text

/-- From the offset on, the tokens lie on the query end to end, up to the one ending. -/
structure Tiling (query : String) (offset : Nat) (tokens : List QueryToken) : Prop where
  start : ∀ token ∈ tokens.head?, token.start = offset
  joined : tokens.IsChain fun first second => second.start = first.stop
  ending : ∃ front last, tokens = front ++ [last] ∧ (∀ token ∈ front, token.kind ≠ .ending) ∧
    last.kind = .ending ∧ last.start = query.utf8ByteSize ∧ last.stop = query.utf8ByteSize
  cut : ∀ token ∈ tokens, token.CutFrom query
  apart : tokens.IsChain fun first second => ¬ (first.kind = .name ∧ second.kind = .name)

section Tiling

variable {query : String} {offset : Nat} {token : QueryToken} {tokens : List QueryToken}

theorem tiling_singleton_iff : Tiling query offset [token] ↔ token.kind = .ending ∧
    token.start = offset ∧ offset = query.utf8ByteSize ∧ token.stop = query.utf8ByteSize := by
  constructor
  · intro htiling
    obtain ⟨front, last, htokens, -, hkind, hstart, hstop⟩ := htiling.ending
    obtain ⟨-, rfl⟩ : front = [] ∧ token = last := by
      cases front with
      | nil => simpa using htokens
      | cons first front => simp at htokens
    have hoffset := htiling.start token rfl
    exact ⟨hkind, hoffset, hoffset ▸ hstart, hstop⟩
  · rintro ⟨hkind, hstart, hoffset, hstop⟩
    refine ⟨by simpa using hstart, .singleton _, ⟨[], token, rfl, by simp, hkind, ?_, hstop⟩, ?_,
      .singleton _⟩
    · rw [hstart, hoffset]
    · rw [List.forall_mem_singleton]
      exact ⟨fun c hmark => by simp [hkind, QueryTokenKind.mark?] at hmark,
        fun hname => by simp [hkind] at hname⟩

/-- Tiling goes on behind a token that is not the last. -/
theorem tiling_cons_iff (hmore : tokens ≠ []) : Tiling query offset (token :: tokens) ↔
    token.start = offset ∧ token.kind ≠ .ending ∧ token.CutFrom query ∧
      (token.kind = .name → ∀ next ∈ tokens.head?, next.kind ≠ .name) ∧
      Tiling query token.stop tokens := by
  constructor
  · intro htiling
    obtain ⟨front, last, htokens, hfront, hlast⟩ := htiling.ending
    obtain ⟨hjoin, hjoined⟩ := List.isChain_cons.mp htiling.joined
    obtain ⟨hapart, haparts⟩ := List.isChain_cons.mp htiling.apart
    obtain ⟨hcut, hcuts⟩ := List.forall_mem_cons.mp htiling.cut
    cases front with
    | nil => exact absurd (List.cons.inj htokens).2 hmore
    | cons first front =>
        obtain ⟨rfl, rfl⟩ := List.cons.inj htokens
        obtain ⟨hkind, hfront⟩ := List.forall_mem_cons.mp hfront
        exact ⟨htiling.start _ rfl, hkind, hcut, fun hname next hnext hnext' =>
          hapart next hnext ⟨hname, hnext'⟩, hjoin, hjoined, ⟨front, last, rfl, hfront, hlast⟩,
          hcuts, haparts⟩
  · rintro ⟨hstart, hkind, hcut, hnext, htiling⟩
    obtain ⟨front, last, rfl, hfront, hlast⟩ := htiling.ending
    exact ⟨by simpa using hstart, List.isChain_cons.mpr ⟨htiling.start, htiling.joined⟩,
      ⟨token :: front, last, rfl, List.forall_mem_cons.mpr ⟨hkind, hfront⟩, hlast⟩,
      List.forall_mem_cons.mpr ⟨hcut, htiling.cut⟩,
      List.isChain_cons.mpr ⟨fun next hmem hnames => hnext hnames.1 next hmem hnames.2,
        htiling.apart⟩⟩

end Tiling

theorem atMark_of_kind_ne_name {offset : Nat} {rest : List Char}
    (hrest : ∀ token ∈ (tokensFrom offset rest).head?, token.kind ≠ .name) : AtMark rest := by
  cases rest with
  | nil => exact startsIn_nil _
  | cons c rest =>
      rw [tokensFrom] at hrest
      rcases consChar_cases offset c (tokensFrom (offset + c.utf8Size) rest) with
        ⟨kind, hkind, -⟩ | ⟨-, ⟨text, start, stop, more, -, hcons⟩ | ⟨-, hcons⟩⟩
      · refine startsIn_cons.mpr (List.contains_iff_mem.mpr ?_)
        by_contra hplain
        rw [← QueryTokenKind.ofChar?_eq_none_iff,
          QueryTokenKind.ofChar?_eq_some_iff.mpr hkind] at hplain
        cases hplain
      · exact absurd rfl (hrest _ (by rw [hcons]; rfl))
      · exact absurd rfl (hrest _ (by rw [hcons]; rfl))

section Unique

variable {query : String} {token : QueryToken} {before rest : List Char}
  (hquery : query.toList = before ++ rest)
include hquery

/-- What spans the query from a place on is the beginning of what stands behind that place. -/
theorem Spans.exists_append {text : String} (hspans : token.Spans query text)
    (hstart : token.start = (String.ofList before).utf8ByteSize) : ∃ after,
      rest = text.toList ++ after ∧ token.stop = token.start + text.utf8ByteSize := by
  obtain ⟨front, after, rfl, hfront, hstop⟩ := hspans
  rw [String.toList_append, String.toList_append, List.append_assoc] at hquery
  have hbefore : Position.charsBefore token.start (before ++ rest) = before := by
    rw [hstart, Position.charsBefore_append]
  have hfront' : Position.charsBefore token.start (before ++ rest) = front.toList := by
    have hsize : token.start = (String.ofList front.toList).utf8ByteSize := by
      rw [hfront, String.ofList_toList]
    rw [hsize, ← hquery, Position.charsBefore_append]
  rw [← hbefore, hfront', List.append_cancel_left_eq] at hquery
  exact ⟨after.toList, hquery.symm, by rw [hstop, hfront, String.utf8ByteSize_append]⟩

/-- A token that is cut from the query at a place is the first token of what stands there, if it
is not a name in front of a name. -/
theorem CutFrom.exists_append (hcut : token.CutFrom query) (hkind : token.kind ≠ .ending)
    (hstart : token.start = (String.ofList before).utf8ByteSize) : ∃ after,
      rest = token.chars ++ after ∧
      token.stop = (String.ofList (before ++ token.chars)).utf8ByteSize ∧
      ((token.kind = .name → AtMark after) →
        tokensFrom token.start rest = token :: tokensFrom token.stop after) := by
  obtain ⟨kind, text, start, stop⟩ := token
  rw [String.ofList_append, String.utf8ByteSize_append, ← hstart]
  cases hmark : kind.mark? with
  | some c =>
      obtain ⟨rfl, hspans⟩ := hcut.mark c hmark
      obtain ⟨after, rfl, (rfl : stop = start + _)⟩ := hspans.exists_append hquery hstart
      rw [chars_of_mark hmark]
      refine ⟨after, by simp, by simp, ?_⟩
      intro _
      rw [String.toList_singleton, List.singleton_append, tokensFrom_mark kind hmark,
        String.utf8ByteSize_singleton]
  | none =>
      cases kind with
      | name =>
          obtain ⟨hname, hspans⟩ := hcut.name rfl
          obtain ⟨after, rfl, (rfl : stop = start + text.utf8ByteSize)⟩ :=
            hspans.exists_append hquery hstart
          rw [chars_of_name rfl]
          refine ⟨after, rfl, by rw [String.ofList_toList], ?_⟩
          intro hafter
          exact tokensFrom_name hname (hafter rfl) start
      | ending => exact absurd rfl hkind
      | openBracket | closeBracket | dot => cases hmark

theorem eq_nil_of_utf8ByteSize_eq
    (hsize : (String.ofList before).utf8ByteSize = query.utf8ByteSize) : rest = [] := by
  have hall : query = String.ofList before ++ String.ofList rest := by
    rw [← String.ofList_append, ← hquery, String.ofList_toList]
  rw [hall, String.utf8ByteSize_append, Nat.left_eq_add, String.utf8ByteSize_eq_zero_iff] at hsize
  simpa using hsize

end Unique

/-- Tokens that tile a query from some place on are the tokens of the text behind that place. -/
theorem Tiling.exists_eq_tokensFrom {query : String} {tokens : List QueryToken}
    {before rest : List Char} (hquery : query.toList = before ++ rest)
    (htiling : Tiling query (String.ofList before).utf8ByteSize tokens) : ∃ text,
      tokens = tokensFrom (String.ofList before).utf8ByteSize rest ++
        [⟨.ending, text, query.utf8ByteSize, query.utf8ByteSize⟩] := by
  induction tokens generalizing before rest with
  | nil =>
      obtain ⟨front, last, htokens, -⟩ := htiling.ending
      simp at htokens
  | cons token tokens ih =>
      by_cases hmore : tokens = []
      · subst hmore
        obtain ⟨kind, text, start, stop⟩ := token
        obtain ⟨rfl, rfl, hoffset, rfl⟩ := tiling_singleton_iff.mp htiling
        obtain rfl := eq_nil_of_utf8ByteSize_eq hquery hoffset
        exact ⟨text, by rw [tokensFrom, hoffset]; rfl⟩
      · obtain ⟨hstart, hkind, hcut, hnext, hbehind⟩ := (tiling_cons_iff hmore).mp htiling
        obtain ⟨after, rfl, hstop, hfirst⟩ := hcut.exists_append hquery hkind hstart
        rw [hstop] at hbehind
        obtain ⟨text, rfl⟩ := ih (by rw [hquery, List.append_assoc]) hbehind
        refine ⟨text, ?_⟩
        rw [← hstop] at hnext ⊢
        rw [← hstart, hfirst, List.cons_append]
        intro hname
        have hafter : ∀ next ∈ (tokensFrom token.stop after).head?, next.kind ≠ .name :=
          fun next hmem => hnext hname next (List.mem_head?_append_of_mem_head? hmem)
        exact atMark_of_kind_ne_name hafter

/-- The tokens of a text are names and marks, and only names have a text. -/
theorem name_or_mark_of_mem_tokensFrom {offset : Nat} {cs : List Char} {token : QueryToken}
    (htoken : token ∈ tokensFrom offset cs) :
    token.kind = .name ∨ token.kind.mark?.isSome = true ∧ token.text = "" := by
  induction cs generalizing offset with
  | nil => cases htoken
  | cons c cs ih =>
      rw [tokensFrom] at htoken
      rcases consChar_cases offset c (tokensFrom (offset + c.utf8Size) cs) with
        ⟨kind, hkind, hcons⟩ | ⟨-, ⟨text, start, stop, more, htokens, hcons⟩ | ⟨-, hcons⟩⟩
      · rw [hcons] at htoken
        rcases List.mem_cons.mp htoken with rfl | htoken
        · exact .inr ⟨by rw [hkind]; rfl, rfl⟩
        · exact ih htoken
      · rw [hcons] at htoken
        rcases List.mem_cons.mp htoken with rfl | htoken
        · exact .inl rfl
        · exact ih (by rw [htokens]; exact List.mem_cons_of_mem _ htoken)
      · rw [hcons] at htoken
        rcases List.mem_cons.mp htoken with rfl | htoken
        · exact .inl rfl
        · exact ih htoken

/-- The tokens of the text behind a place, and the ending, tile the query from that place on. -/
theorem tiling_tokensFrom {query : String} {tokens : List QueryToken} {before : List Char}
    (hquery : query.toList = before ++ tokens.flatMap chars)
    (htiles : Tiles (String.ofList before).utf8ByteSize tokens)
    (htexts : ∀ token ∈ tokens, token.kind ≠ .name → token.text = "") :
    Tiling query (String.ofList before).utf8ByteSize (tokens ++ [.ending query]) := by
  induction tokens generalizing before with
  | nil =>
      rw [List.flatMap_nil, List.append_nil] at hquery
      have hsize : (String.ofList before).utf8ByteSize = query.utf8ByteSize := by
        rw [← hquery, String.ofList_toList]
      exact tiling_singleton_iff.mpr ⟨rfl, hsize.symm, hsize, rfl⟩
  | cons token tokens ih =>
      obtain ⟨hstart, hstop, hproper, hkind, hnext, hmore⟩ := htiles
      obtain ⟨htext, htexts⟩ := List.forall_mem_cons.mp htexts
      rw [← String.utf8ByteSize_append, ← String.ofList_append] at hstop
      rw [List.flatMap_cons] at hquery
      have hspans : token.Spans query (String.ofList token.chars) := by
        refine ⟨String.ofList before, String.ofList (tokens.flatMap chars), ?_, hstart, ?_⟩
        · rw [← String.toList_inj, hquery]
          simp
        · rw [hstop, String.ofList_append]
      rw [List.cons_append, tiling_cons_iff (by simp)]
      refine ⟨hstart, hkind, ⟨?_, ?_⟩, ?_, ?_⟩
      · intro c hmark
        rw [chars_of_mark hmark] at hspans
        refine ⟨htext ?_, by simpa using hspans⟩
        rintro hname
        simp [hname, QueryTokenKind.mark?] at hmark
      · intro hname
        rw [chars_of_name hname, String.ofList_toList] at hspans
        exact ⟨hproper hname, hspans⟩
      · intro hname
        cases tokens with
        | nil => simp [ending]
        | cons next tokens => exact hnext hname
      · rw [hstop] at hmore ⊢
        exact ih (by rw [hquery, List.append_assoc]) hmore htexts

theorem toList_piece {offset : Nat} {cs : List Char} {token : QueryToken}
    (htoken : token ∈ tokensFrom offset cs) : token.piece.toList = token.chars := by
  rw [piece]
  cases hmark : token.kind.mark? with
  | some c => rw [chars_of_mark hmark, String.toList_singleton]
  | none =>
      have hname := (name_or_mark_of_mem_tokensFrom htoken).resolve_right (by simp [hmark])
      rw [chars_of_name hname]

/-- The pieces of the tokens of a text make up the text. -/
theorem join_pieces_tokensFrom (offset : Nat) (cs : List Char) :
    String.join ((tokensFrom offset cs).map piece) = String.ofList cs := by
  have hpieces : (tokensFrom offset cs).flatMap (fun token => token.piece.toList) =
      (tokensFrom offset cs).flatMap chars :=
    List.flatMap_congr fun token => toList_piece
  rw [← String.toList_inj, String.toList_join, List.flatMap_map, hpieces, flatMap_chars_tokensFrom,
    String.toList_ofList]

end QueryToken

namespace Query

open QueryToken

/-- The tokens of a query are the only ones that tile it and whose pieces make it up. -/
theorem tiling_iff_eq_lex {query : String} {tokens : List QueryToken} :
    Tiling query 0 tokens ∧ String.join (tokens.map piece) = query ↔ tokens = lex query := by
  have hstart : (String.ofList []).utf8ByteSize = 0 := rfl
  have hjoin (text : String) : String.join ((tokensFrom 0 query.toList ++
      [(⟨.ending, text, query.utf8ByteSize, query.utf8ByteSize⟩ : QueryToken)]).map piece) =
        query ++ text := by
    rw [List.map_append, String.join_append, join_pieces_tokensFrom, String.ofList_toList]
    simp [piece, QueryTokenKind.mark?]
  constructor
  · rintro ⟨htiling, hpieces⟩
    rw [← hstart] at htiling
    obtain ⟨text, rfl⟩ := htiling.exists_eq_tokensFrom (List.nil_append _).symm
    rw [hstart, hjoin] at hpieces
    obtain rfl : text = "" := by simpa using hpieces
    rw [lex, tokens_eq_tokensFrom]
    rfl
  · rintro rfl
    rw [lex, tokens_eq_tokensFrom]
    refine ⟨?_, (hjoin "").trans String.append_empty⟩
    have htiles := tiles_tokensFrom 0 query.toList
    rw [← hstart] at htiles ⊢
    refine tiling_tokensFrom ?_ htiles fun token htoken hkind => ?_
    · rw [flatMap_chars_tokensFrom, List.nil_append]
    · exact ((name_or_mark_of_mem_tokensFrom htoken).resolve_left hkind).2

/-- Offsets count bytes, of which some characters have two. -/
example : lex "é[b]" = [⟨.name, "é", 0, 2⟩, ⟨.openBracket, "", 2, 3⟩, ⟨.name, "b", 3, 4⟩,
    ⟨.closeBracket, "", 4, 5⟩, ⟨.ending, "", 5, 5⟩] := by
  decide

end Query

end HclEditor
