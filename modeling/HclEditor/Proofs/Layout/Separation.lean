import Mathlib
import HclEditor.Proofs.Document.Parts

/-!
# The tokens of a layout stay apart

In the layout of a document that can be read again, every token is read in front of what
stands behind it. Keys are followed by spaces, comments by the end of their line, and
scalars by a comma, a space, or the end of the line. Only a heredoc needs the last.
-/

namespace HclEditor

namespace TokenKind

/-- The tokens that are always written alike, with their texts. -/
def marks : List (TokenKind × String) :=
  [(.assign, "="), (.openBrace, "\x7b"), (.closeBrace, "\x7d"), (.openBracket, "["),
    (.closeBracket, "]"), (.comma, ",")]

/-- A mark is read in front of anything. -/
theorem reads_mark {kind : TokenKind} {text : String} (hmark : (kind, text) ∈ marks)
    (lax : Prop) (rest : List Char) : kind.ReadsBefore lax text rest := by
  simp only [marks, List.mem_cons, Prod.mk.injEq, List.not_mem_nil, or_false] at hmark
  rcases hmark with ⟨rfl, rfl⟩ | ⟨rfl, rfl⟩ | ⟨rfl, rfl⟩ | ⟨rfl, rfl⟩ | ⟨rfl, rfl⟩ | ⟨rfl, rfl⟩
  all_goals exact Reads.readsBefore ⟨_, [], rfl, rfl, rfl⟩ (by simp)

end TokenKind

namespace Lexeme

theorem AtLineEnd.startsIn_isBreak {rest : List Char} (hrest : AtLineEnd rest) :
    StartsIn isBreak rest := by
  intro c hc
  have hfeed := hrest c hc
  rw [beq_iff_eq] at hfeed
  rw [hfeed]
  rfl

end Lexeme

section Lax

variable {lax : Prop}

namespace Part

open Lexeme

/-- A key is read in front of a break. -/
theorem Sound.reads_key {key : Key} (hkey : (Part.key key).Sound) {rest : List Char}
    (hrest : StartsIn isBreak rest) :
    key.kind.tokenKind.ReadsBefore lax key.text rest := by
  refine ((TokenKind.spells_iff_reads.mp hkey).of_endsBefore ?_).readsBefore ?_
  · cases key.kind with
    | identifier => exact hrest
    | string => trivial
  · cases key.kind <;> simp [KeyKind.tokenKind]

/-- A scalar is read in front of a break. -/
theorem Sound.reads_literal {literal : Literal} (hliteral : (Part.literal literal).Sound)
    {rest : List Char} (hrest : StartsIn isBreak rest)
    (hheredoc : literal.kind = .heredoc → AtLineEnd rest ∨ lax) :
    (TokenKind.literal literal.kind).ReadsBefore lax literal.text rest := by
  have hspells : (TokenKind.literal literal.kind).Spells literal.text := hliteral
  obtain ⟨kind, text⟩ := literal
  by_cases hkind : kind = .heredoc
  · subst hkind
    exact hspells.readsBefore (hheredoc rfl)
  · refine ((TokenKind.spells_iff_reads.mp hspells).of_endsBefore ?_).readsBefore (by simpa)
    cases kind with
    | string => trivial
    | heredoc => exact absurd rfl hkind
    | _ => exact hrest

end Part

namespace Layout

open Piece Lexeme

theorem isGap_margin (indent depth : Nat) :
    ∀ c ∈ (margin indent depth).toList, isGap c = true := by
  intro c hc
  rw [margin, spaces, String.toList_ofList] at hc
  rw [List.eq_of_mem_replicate hc]
  rfl

theorem isGap_separator (above below : Item) :
    ∀ c ∈ (separator above below).toList, isGap c = true := by
  unfold separator
  split <;> exact List.all_eq_true.mp rfl

theorem atLineEnd_separator (above below : Item) (rest : List Char) :
    AtLineEnd ((separator above below).toList ++ rest) := by
  unfold separator
  split <;> exact startsIn_cons.mpr rfl

theorem separate_mark {kind : TokenKind} {text : String}
    (hmark : (kind, text) ∈ TokenKind.marks) (rest : List Char) :
    Separate lax rest [.token kind text] :=
  separate_token.mpr ⟨TokenKind.reads_mark hmark _ _, separate_nil⟩

/-- A comment ends at the end of its line. -/
theorem separate_commentPieces {text : String} (hcomment : (Part.comment text).Sound)
    {rest : List Char} (hrest : AtLineEnd rest) : Separate lax rest (commentPieces text) := by
  rw [commentPieces]
  split
  next hlast =>
    refine separate_token.mpr ⟨?_, separate_gap.mpr ⟨List.all_eq_true.mp rfl, separate_nil⟩⟩
    rw [charsOf_gap, charsOf_nil, List.append_nil]
    exact (TokenKind.Reads.withoutReturn hcomment hlast hrest).readsBefore (by simp)
  next hlast =>
    refine separate_token.mpr ⟨?_, separate_nil⟩
    rw [withoutReturn, if_neg hlast]
    exact (TokenKind.Reads.of_endsBefore hcomment (Or.inl ⟨hrest, hlast⟩)).readsBefore (by simp)

theorem separate_linesPieces {margin : String} (hmargin : ∀ c ∈ margin.toList, isGap c = true)
    {texts : List String} (htexts : ∀ text ∈ texts, (Part.comment text).Sound)
    (rest : List Char) : Separate lax rest (linesPieces margin texts) := by
  induction texts with
  | nil => exact separate_nil
  | cons text texts ih =>
      obtain ⟨htext, htexts⟩ := List.forall_mem_cons.mp htexts
      refine separate_gap.mpr ⟨hmargin, separate_append.mpr ⟨?_, ?_⟩⟩
      · exact separate_commentPieces htext (startsIn_cons.mpr rfl)
      · exact separate_gap.mpr ⟨List.all_eq_true.mp rfl, ih htexts⟩

theorem separate_trailingPieces {comment : Option String}
    (hcomment : ∀ text ∈ comment, (Part.comment text).Sound) {rest : List Char}
    (hrest : AtLineEnd rest) : Separate lax rest (trailingPieces comment) := by
  cases comment with
  | none => exact separate_nil
  | some text =>
      apply separate_gap.mpr
      exact ⟨List.all_eq_true.mp rfl, separate_commentPieces (hcomment text rfl) hrest⟩

/-- Behind a value stands a space or what follows the trailing comment. -/
theorem startsIn_trailingPieces (comment : Option String) {rest : List Char}
    (hrest : StartsIn isBreak rest) :
    StartsIn isBreak (charsOf (trailingPieces comment) ++ rest) := by
  cases comment with
  | none => exact hrest
  | some text => exact startsIn_cons.mpr rfl

/-- Groups of pieces that are separate in front of breaks stay so when they are joined by a
separator that starts with a break. -/
theorem separate_joined {separator : List Piece}
    (hbreak : ∀ tail, StartsIn isBreak (charsOf separator ++ tail))
    (hseparator : ∀ tail, Separate lax tail separator) {groups : List (List Piece)}
    (hgroups : ∀ group ∈ groups, ∀ tail, StartsIn isBreak tail → Separate lax tail group)
    {rest : List Char} (hrest : StartsIn isBreak rest) :
    Separate lax rest (joined separator groups) := by
  induction groups with
  | nil => exact separate_nil
  | cons group groups ih =>
      obtain ⟨hgroup, hgroups⟩ := List.forall_mem_cons.mp hgroups
      cases groups with
      | nil => exact hgroup rest hrest
      | cons more others =>
          rw [joined, List.append_assoc, separate_append, separate_append, charsOf_append,
            List.append_assoc]
          exact ⟨hgroup _ (hbreak _), hseparator _, ih hgroups⟩

theorem separate_keyPieces {keys : List Key} (hkeys : ∀ key ∈ keys, (Part.key key).Sound)
    {rest : List Char} (hrest : StartsIn isBreak rest) : Separate lax rest (keyPieces keys) := by
  refine separate_joined (fun tail => startsIn_cons.mpr rfl)
    (fun tail => separate_gap.mpr ⟨List.all_eq_true.mp rfl, separate_nil⟩) ?_ hrest
  intro group hgroup tail htail
  obtain ⟨key, hkey, rfl⟩ := List.mem_map.mp hgroup
  refine separate_token.mpr ⟨?_, separate_nil⟩
  exact (hkeys key hkey).reads_key htail

theorem separate_signPieces (width : Nat) (item : Item) (rest : List Char) :
    Separate lax rest (Entry.signPieces width item) := by
  rw [Entry.signPieces]
  split
  · refine separate_gap.mpr ⟨?_, separate_token.mpr ⟨TokenKind.reads_mark (by decide) _ _,
      separate_gap.mpr ⟨List.all_eq_true.mp rfl, separate_nil⟩⟩⟩
    intro c hc
    rcases List.mem_append.mp hc with hpad | hspace
    · rw [List.eq_of_mem_replicate hpad]
      rfl
    · rw [List.mem_singleton.mp hspace]
      rfl
  · exact separate_gap.mpr ⟨List.all_eq_true.mp rfl, separate_nil⟩

/-- Between the keys and the value stands a space. -/
theorem startsIn_signPieces (width : Nat) (item : Item) (rest : List Char) :
    StartsIn isBreak (charsOf (Entry.signPieces width item) ++ rest) := by
  rw [Entry.signPieces]
  split
  · cases width - item.keyPath.length with
    | zero => exact startsIn_cons.mpr rfl
    | succ count => exact startsIn_cons.mpr rfl
  · exact startsIn_cons.mpr rfl

namespace Entry

/-- The entry is separate in front of the end of a line, if its value is separate in front
of whatever may stand there. -/
theorem separate_pieces {margin : String} (hmargin : ∀ c ∈ margin.toList, isGap c = true)
    (width : Nat) {entry : Entry} (hparts : ∀ part ∈ entry.item.parts, part.Rereadable lax)
    (hvalue : ∀ tail, StartsIn isBreak tail →
      (entry.item.value.isHeredoc = true → AtLineEnd tail ∨ lax) →
      Separate lax tail entry.value)
    {rest : List Char} (hrest : AtLineEnd rest) :
    Separate lax rest (entry.pieces margin width) := by
  obtain ⟨hitem, hlead, hkeys, -, hline⟩ := Item.forall_parts.mp hparts
  rw [Entry.pieces, separate_append, separate_gap, separate_append, separate_append,
    separate_append]
  refine ⟨separate_linesPieces hmargin (fun text htext => (hlead text htext).1) _, hmargin,
    ⟨⟨?_, separate_signPieces _ _ _⟩, ?_⟩, ?_⟩
  · exact separate_keyPieces (fun key hkey => (hkeys key hkey).1) (startsIn_signPieces _ _ _)
  · refine hvalue _ (startsIn_trailingPieces _ hrest.startsIn_isBreak) ?_
    intro hheredoc
    refine hitem.2.imp_left fun halone => ?_
    rw [halone hheredoc]
    exact hrest
  · exact separate_trailingPieces (fun text htext => (hline text htext).1) hrest

end Entry

theorem atLineEnd_belowPieces (margin : String) (above : Item) (entries : List (Entry × Nat))
    {rest : List Char} (hrest : AtLineEnd rest) :
    AtLineEnd (charsOf (belowPieces margin above entries) ++ rest) := by
  cases entries with
  | nil => exact hrest
  | cons entry entries =>
      rw [belowPieces, charsOf_gap, List.append_assoc]
      exact atLineEnd_separator _ _ _

section Entries

variable {margin : String} {entries : List (Entry × Nat)}
  (hentries : ∀ entry ∈ entries, ∀ tail, AtLineEnd tail →
    Separate lax tail (entry.1.pieces margin entry.2))
include hentries

theorem separate_belowPieces (above : Item) {rest : List Char} (hrest : AtLineEnd rest) :
    Separate lax rest (belowPieces margin above entries) := by
  induction entries generalizing above with
  | nil => exact separate_nil
  | cons entry entries ih =>
      obtain ⟨hentry, hentries⟩ := List.forall_mem_cons.mp hentries
      rw [belowPieces, separate_gap, separate_append]
      exact ⟨isGap_separator _ _, hentry _ (atLineEnd_belowPieces _ _ _ hrest),
        ih hentries _⟩

theorem separate_entriesPieces {rest : List Char} (hrest : AtLineEnd rest) :
    Separate lax rest (entriesPieces margin entries) := by
  cases entries with
  | nil => exact separate_nil
  | cons entry entries =>
      obtain ⟨hentry, hentries⟩ := List.forall_mem_cons.mp hentries
      rw [entriesPieces, separate_append]
      exact ⟨hentry _ (atLineEnd_belowPieces _ _ _ hrest),
        separate_belowPieces hentries _ hrest⟩

end Entries

theorem atLineEnd_danglingPieces (margin : String) (comments : List String)
    {rest : List Char} (hrest : AtLineEnd rest) :
    AtLineEnd (charsOf (danglingPieces margin false comments) ++ rest) := by
  cases comments with
  | nil => exact hrest
  | cons comment comments => exact startsIn_cons.mpr rfl

theorem separate_danglingPieces {margin : String}
    (hmargin : ∀ c ∈ margin.toList, isGap c = true) (bare : Bool) {comments : List String}
    (hcomments : ∀ comment ∈ comments, (Part.comment comment).Sound) {rest : List Char}
    (hrest : AtLineEnd rest) : Separate lax rest (danglingPieces margin bare comments) := by
  induction comments generalizing bare with
  | nil => exact separate_nil
  | cons comment comments ih =>
      obtain ⟨hcomment, hcomments⟩ := List.forall_mem_cons.mp hcomments
      rw [danglingPieces, separate_gap, separate_append, hcomment.comment_ne_empty,
        Bool.and_false]
      refine ⟨?_, separate_commentPieces hcomment (atLineEnd_danglingPieces _ _ hrest),
        ih false hcomments⟩
      intro c hc
      rcases List.mem_append.mp hc with hfeed | hspace
      · cases bare with
        | false =>
            rw [List.mem_singleton.mp hfeed]
            rfl
        | true => cases hfeed
      · exact hmargin c hspace

theorem separate_bodyPieces {margin : String}
    (hmargin : ∀ c ∈ margin.toList, isGap c = true) {entries : List Entry}
    (hentries : ∀ entry ∈ entries, ∀ width tail, AtLineEnd tail →
      Separate lax tail (entry.pieces margin width)) {dangling : List String}
    (hdangling : ∀ comment ∈ dangling, (Part.comment comment).Sound) {rest : List Char}
    (hrest : AtLineEnd rest) : Separate lax rest (bodyPieces margin entries dangling) := by
  rw [bodyPieces, separate_append]
  refine ⟨?_, separate_danglingPieces hmargin _ hdangling hrest⟩
  cases entries with
  | nil => exact separate_nil
  | cons first others =>
      refine separate_entriesPieces ?_ (atLineEnd_danglingPieces _ _ hrest)
      intro entry hentry
      exact hentries entry.1 (List.of_mem_zip hentry).1 entry.2

/-- The scalars of a compact list are separate in front of breaks. -/
theorem separate_scalarPieces {value : Value} (hparts : ∀ part ∈ value.parts, part.Sound)
    (hheredoc : value.isHeredoc = false) {rest : List Char} (hrest : StartsIn isBreak rest) :
    Separate lax rest (scalarPieces value) := by
  cases value with
  | literal literal =>
      refine separate_token.mpr ⟨?_, separate_nil⟩
      refine Part.Sound.reads_literal (hparts _ (List.mem_singleton.mpr rfl)) hrest ?_
      intro hkind
      rw [Value.isHeredoc, hkind] at hheredoc
      cases hheredoc
  | object body => exact separate_nil
  | list list => exact separate_nil

theorem separate_compactPieces {list : ListBody} {text : String}
    (htext : compactList? list = some text) (hparts : ∀ part ∈ list.parts, part.Sound)
    (rest : List Char) : Separate lax rest (compactPieces list) := by
  obtain ⟨-, hscalars⟩ := scalars_of_compactList? htext
  obtain ⟨helements, -⟩ := ListBody.forall_parts.mp hparts
  rw [compactPieces, separate_token, separate_append]
  refine ⟨TokenKind.reads_mark (by decide) _ _, ?_, separate_mark (by decide) _⟩
  refine separate_joined (fun tail => startsIn_cons.mpr rfl) (fun tail => ?_) ?_
    (startsIn_cons.mpr rfl)
  · exact separate_token.mpr ⟨TokenKind.reads_mark (by decide) _ _,
      separate_gap.mpr ⟨List.all_eq_true.mp rfl, separate_nil⟩⟩
  · intro group hgroup tail htail
    obtain ⟨element, helement, rfl⟩ := List.mem_map.mp hgroup
    obtain ⟨-, -, hvalue, -⟩ := Element.forall_parts.mp (helements element helement)
    exact separate_scalarPieces hvalue (hscalars element helement).2.1 htail

theorem separate_elementPieces {margin : String}
    (hmargin : ∀ c ∈ margin.toList, isGap c = true) {value : List Piece}
    (hvalue : ∀ tail, StartsIn isBreak tail → Separate lax tail value) {comments : Comments}
    (hlead : ∀ text ∈ comments.lead, (Part.comment text).Sound)
    (hline : ∀ text ∈ comments.line, (Part.comment text).Sound) (rest : List Char) :
    Separate lax rest (elementPieces margin value comments) := by
  rw [elementPieces, separate_append, separate_gap, separate_append, separate_token,
    separate_append]
  exact ⟨separate_linesPieces hmargin hlead _, hmargin, hvalue _ (startsIn_cons.mpr rfl),
    TokenKind.reads_mark (by decide) _ _,
    separate_trailingPieces hline (startsIn_cons.mpr rfl),
    separate_gap.mpr ⟨List.all_eq_true.mp rfl, separate_nil⟩⟩

end Layout

open Layout Piece Lexeme
mutual

/-- A value stays apart from a break behind it that may follow it. -/
theorem Value.separate_pieces (indent depth : Nat) {value : Value}
    (hparts : ∀ part ∈ value.parts, part.Rereadable lax) {rest : List Char}
    (hrest : StartsIn isBreak rest) (hheredoc : value.isHeredoc = true → AtLineEnd rest ∨ lax) :
    Separate lax rest (value.pieces indent depth) := by
  cases value with
  | literal literal =>
      refine separate_token.mpr ⟨?_, separate_nil⟩
      refine Part.Sound.reads_literal (hparts _ (List.mem_singleton.mpr rfl)).1 hrest ?_
      intro hkind
      exact hheredoc (by rw [Value.isHeredoc, hkind]; rfl)
  | object body =>
      rw [Value.pieces]
      split
      · exact separate_token.mpr ⟨TokenKind.reads_mark (by decide) _ _,
          separate_mark (by decide) _⟩
      · rw [separate_token, separate_gap, separate_append, separate_gap]
        exact ⟨TokenKind.reads_mark (by decide) _ _, List.all_eq_true.mp rfl,
          body.separate_pieces indent (depth + 1) hparts (startsIn_cons.mpr rfl),
          List.forall_mem_cons.mpr ⟨rfl, isGap_margin indent depth⟩,
          separate_mark (by decide) _⟩
  | list list =>
      rw [Value.pieces]
      split
      · exact separate_token.mpr ⟨TokenKind.reads_mark (by decide) _ _,
          separate_mark (by decide) _⟩
      · split
        next text htext =>
          exact separate_compactPieces htext (fun part hpart => (hparts part hpart).1) _
        next =>
          rw [separate_token, separate_gap, separate_append, separate_gap]
          exact ⟨TokenKind.reads_mark (by decide) _ _, List.all_eq_true.mp rfl,
            list.separate_pieces indent (depth + 1) hparts _, isGap_margin indent depth,
            separate_mark (by decide) _⟩

/-- A body stays apart from the end of a line behind it. -/
theorem Body.separate_pieces (indent depth : Nat) {body : Body}
    (hparts : ∀ part ∈ body.parts, part.Rereadable lax) {rest : List Char}
    (hrest : AtLineEnd rest) : Separate lax rest (body.pieces indent depth) := by
  obtain ⟨items, dangling⟩ := body
  obtain ⟨hitems, hdangling⟩ := Body.forall_parts.mp hparts
  have hentries := Layout.separate_entriesOf indent depth hitems
  exact separate_bodyPieces (isGap_margin indent depth) hentries
    (fun comment hcomment => (hdangling comment hcomment).1) hrest

theorem Layout.separate_entriesOf (indent depth : Nat) {items : List Item}
    (hitems : ∀ item ∈ items, ∀ part ∈ item.parts, part.Rereadable lax) :
    ∀ entry ∈ entriesOf indent depth items, ∀ width tail, AtLineEnd tail →
      Separate lax tail (entry.pieces (margin indent depth) width) := by
  cases items with
  | nil => simp [entriesOf]
  | cons item items =>
      obtain ⟨hitem, hitems⟩ := List.forall_mem_cons.mp hitems
      rw [entriesOf, List.forall_mem_cons]
      refine ⟨?_, Layout.separate_entriesOf indent depth hitems⟩
      intro width tail htail
      exact Entry.separate_pieces (isGap_margin indent depth) width hitem
        (fun tail => item.separate_valuePieces indent depth hitem) htail

theorem Item.separate_valuePieces (indent depth : Nat) {item : Item}
    (hparts : ∀ part ∈ item.parts, part.Rereadable lax) {rest : List Char}
    (hrest : StartsIn isBreak rest)
    (hheredoc : item.value.isHeredoc = true → AtLineEnd rest ∨ lax) :
    Separate lax rest (item.valuePieces indent depth) := by
  obtain ⟨-, -, -, hvalue, -⟩ := Item.forall_parts.mp hparts
  obtain ⟨keys, value, assigned, comments, blankBefore, span⟩ := item
  exact value.separate_pieces indent depth hvalue hrest hheredoc

theorem ListBody.separate_pieces (indent depth : Nat) {list : ListBody}
    (hparts : ∀ part ∈ list.parts, part.Rereadable lax) (rest : List Char) :
    Separate lax rest (list.pieces indent depth) := by
  obtain ⟨elements, dangling⟩ := list
  obtain ⟨helements, hdangling⟩ := ListBody.forall_parts.mp hparts
  rw [ListBody.pieces, separate_append]
  exact ⟨Layout.separate_elementsPieces indent depth helements _,
    separate_linesPieces (isGap_margin indent depth)
      (fun comment hcomment => (hdangling comment hcomment).1) _⟩

theorem Layout.separate_elementsPieces (indent depth : Nat) {elements : List Element}
    (helements : ∀ element ∈ elements, ∀ part ∈ element.parts, part.Rereadable lax)
    (rest : List Char) : Separate lax rest (elementsPieces indent depth elements) := by
  cases elements with
  | nil => exact separate_nil
  | cons element elements =>
      obtain ⟨helement, hothers⟩ := List.forall_mem_cons.mp helements
      obtain ⟨hown, hlead, hvalue, hline⟩ := Element.forall_parts.mp helement
      obtain ⟨value, comments⟩ := element
      rw [elementsPieces, separate_append]
      refine ⟨?_, Layout.separate_elementsPieces indent depth hothers _⟩
      refine separate_elementPieces (isGap_margin indent depth) ?_
        (fun text htext => (hlead text htext).1) (fun text htext => (hline text htext).1) _
      intro tail htail
      refine value.separate_pieces indent depth hvalue htail ?_
      intro hheredoc
      refine hown.2.imp_left fun halone => ?_
      rw [show value.isHeredoc = false from halone] at hheredoc
      cases hheredoc

end

end Lax

end HclEditor
