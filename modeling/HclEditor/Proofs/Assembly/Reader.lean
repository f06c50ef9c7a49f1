import Mathlib
import HclEditor.Proofs.Document.ReadBack

/-!
# Reading pieces

A reader stands somewhere in a text, with what has been assembled from the tokens before
it. The tokens of pieces move it, whatever stands around them. Comments find their owner by
the lines on which tokens start and end, so the reader keeps track of the position.
-/

namespace HclEditor

open Piece Layout

/-- A reading point, the line on which the last token ended, and the position in the text. -/
structure Reader where
  point : ReadingPoint
  lastLine : Nat
  position : Position

/-- The pieces lead from the one reader to the other. -/
def Moves (pieces : List Piece) (before after : Reader) : Prop :=
  after.position = before.position.advance (charsOf pieces) ∧
    Assembly.run ⟨before.point, before.lastLine⟩ (tokensFrom before.position pieces) =
      .ok ⟨after.point, after.lastLine⟩

namespace Assembly

theorem run_append (assembly : Assembly) (first second : List Token) :
    assembly.run (first ++ second) = (assembly.run first).bind (·.run second) := by
  rw [run, List.foldlM_append]
  rfl

end Assembly

namespace Moves

theorem nil (reader : Reader) : Moves [] reader reader :=
  ⟨rfl, rfl⟩

theorem append {first second : List Piece} {before middle after : Reader}
    (hfirst : Moves first before middle) (hsecond : Moves second middle after) :
    Moves (first ++ second) before after := by
  obtain ⟨hposition, hrun⟩ := hfirst
  obtain ⟨hposition', hrun'⟩ := hsecond
  refine ⟨?_, ?_⟩
  · rw [hposition', hposition, charsOf_append, Position.advance_append]
  · rw [tokensFrom_append, Assembly.run_append, hrun, ← hposition]
    exact hrun'

theorem le_line {pieces : List Piece} {before after : Reader} (hmoves : Moves pieces before after) :
    before.position.line ≤ after.position.line := by
  rw [hmoves.1, Position.line_advance]
  exact Nat.le_add_right _ _

/-- A gap moves the position alone. -/
theorem gap (chars : List Char) {pieces : List Piece} {point : ReadingPoint} {lastLine : Nat}
    {position : Position} {after : Reader}
    (hmoves : Moves pieces ⟨point, lastLine, position.advance chars⟩ after) :
    Moves (.gap chars :: pieces) ⟨point, lastLine, position⟩ after := by
  obtain ⟨hposition, hrun⟩ := hmoves
  refine ⟨?_, hrun⟩
  rw [hposition, charsOf_gap, Position.advance_append]

/-- A token moves the reading point. -/
theorem token {kind : TokenKind} {text : String} {pieces : List Piece}
    {point next : ReadingPoint} {lastLine : Nat} {position : Position} {after : Reader}
    (hstep : point.step lastLine ⟨kind, text, position, position.advance text.toList⟩ = .ok next)
    (hmoves : Moves pieces ⟨next, (position.advance text.toList).line,
      position.advance text.toList⟩ after) :
    Moves (.token kind text :: pieces) ⟨point, lastLine, position⟩ after := by
  obtain ⟨hposition, hrun⟩ := hmoves
  refine ⟨?_, ?_⟩
  · rw [hposition, charsOf_token, Position.advance_append]
  · rw [tokensFrom_token, Assembly.run, List.foldlM_cons, Assembly.step, hstep]
    exact hrun

/-- A comment moves the reading point with its text, and the carriage return behind it
stays on its line. -/
theorem comment (text : String) (point : ReadingPoint) {next : ReadingPoint} (lastLine : Nat)
    (position : Position)
    (hstep : point.step lastLine ⟨.comment, withoutReturn text, position,
      position.advance (withoutReturn text).toList⟩ = .ok next) :
    ∃ position', Moves (commentPieces text) ⟨point, lastLine, position⟩
      ⟨next, position'.line, position'⟩ := by
  rw [commentPieces]
  split
  next =>
    have hsameLine : '\n' ∉ ['\r'] := by decide
    have hreturn := (position.advance (withoutReturn text).toList).line_advance_of_not_mem
      hsameLine
    refine ⟨(position.advance (withoutReturn text).toList).advance ['\r'],
      .token hstep (.gap ['\r'] ?_)⟩
    rw [hreturn]
    exact .nil _
  next => exact ⟨_, .token hstep (.nil _)⟩

end Moves

theorem Piece.joined_cons (separator first : List Piece) (groups : List (List Piece)) :
    joined separator (first :: groups) = first ++ groups.flatMap (separator ++ ·) := by
  induction groups generalizing first with
  | nil => simp [joined]
  | cons group groups ih => rw [joined, ih, List.flatMap_cons, List.append_assoc, List.append_assoc]

theorem Layout.not_mem_margin (indent depth : Nat) : '\n' ∉ (margin indent depth).toList := by
  rw [margin, spaces, String.toList_ofList]
  intro hmem
  cases List.eq_of_mem_replicate hmem

namespace OpenBody

/-- The body has these items, and these comments for the next one. If the next token is on
`line` then a comment belongs to the next item too, and a key makes an item that follows a
blank line or not, as `blank` says. -/
structure AwaitsItem (body : OpenBody) (items : List Item) (lead : List String) (blank : Bool)
    (lastLine line : Nat) : Prop where
  items_eq : body.items = items
  lead_eq : body.lead = lead
  blank_eq : ∀ token : Token, token.start.line = line →
    body.blankBeforeItem lastLine token = blank
  above : body.trailing = .nothing ∨ body.items = [] ∨ line ≠ lastLine

theorem comment_eq_leadComment {body : OpenBody} {lastLine : Nat} {token : Token}
    (habove : body.trailing = .nothing ∨ body.items = [] ∨ token.start.line ≠ lastLine) :
    body.comment lastLine token = body.leadComment lastLine token := by
  unfold comment
  split
  next item items hitems =>
    rw [if_neg]
    rintro ⟨htrailing, hline⟩
    rcases habove with hnothing | hnil | hne
    · exact htrailing hnothing
    · rw [hitems] at hnil
      cases hnil
    · exact hne hline
  next => rfl

/-- A comment above the next item leaves open on which line that starts. -/
theorem AwaitsItem.comment {body : OpenBody} {items : List Item} {lead : List String}
    {blank : Bool} {lastLine line : Nat} (hawaits : body.AwaitsItem items lead blank lastLine line)
    (token : Token) (hline : token.start.line = line) (lastLine' line' : Nat) :
    (body.comment lastLine token).AwaitsItem items (token.text :: lead) blank lastLine' line' := by
  subst hline
  rw [comment_eq_leadComment hawaits.above]
  refine ⟨hawaits.items_eq, by rw [leadComment, hawaits.lead_eq], ?_, .inl rfl⟩
  intro next _
  exact hawaits.blank_eq token rfl

/-- Comments on lines of their own stand above the next item. -/
theorem AwaitsItem.moves_linesPieces {body : OpenBody} {items : List Item} {lead : List String}
    {blank : Bool} {lastLine : Nat} {position : Position}
    (hawaits : body.AwaitsItem items lead blank lastLine position.line) {margin : String}
    (hmargin : '\n' ∉ margin.toList) (texts : List String) (site : Site) :
    ∃ body' lastLine' position',
      body'.AwaitsItem items ((texts.map withoutReturn).reverse ++ lead) blank lastLine'
        position'.line ∧
      Moves (linesPieces margin texts) ⟨.items site body, lastLine, position⟩
        ⟨.items site body', lastLine', position'⟩ := by
  induction texts generalizing body lead lastLine position with
  | nil => exact ⟨body, lastLine, position, hawaits, .nil _⟩
  | cons text texts ih =>
      have hline := position.line_advance_of_not_mem hmargin
      obtain ⟨position₁, hcomment⟩ := Moves.comment text (.items site body) lastLine
        (position.advance margin.toList) rfl
      have hnext := hawaits.comment ⟨.comment, withoutReturn text,
        position.advance margin.toList,
        (position.advance margin.toList).advance (withoutReturn text).toList⟩ hline
        position₁.line (position₁.advance ['\n']).line
      obtain ⟨body', lastLine', position', hawaits', hmoves⟩ := ih hnext
      refine ⟨body', lastLine', position', ?_, ?_⟩
      · simpa using hawaits'
      · exact .gap _ (hcomment.append (.gap _ hmoves))

/-- The comment behind the value of the last item is the item's own. -/
theorem moves_trailingPieces (body : OpenBody) (item : Item)
    (hcomment : item.comments.line = none) (site : Site) (comment : Option String)
    (position : Position) :
    ∃ body' position',
      body'.items = { item with comments :=
        { item.comments with line := comment.map withoutReturn } } :: body.items ∧
      body'.lead = [] ∧
      Moves (trailingPieces comment) ⟨.items site (body.push item), position.line, position⟩
        ⟨.items site body', position'.line, position'⟩ := by
  cases comment with
  | none =>
      refine ⟨body.push item, position, ?_, rfl, .nil _⟩
      obtain ⟨keys, value, assigned, ⟨lead, line⟩, blankBefore, span⟩ := item
      cases hcomment
      rfl
  | some text =>
      have hspace : (position.advance [' ']).line = position.line :=
        position.line_advance_of_not_mem (by decide)
      have hown (token : Token) (htoken : token.start.line = position.line) :
          (body.push item).comment position.line token = { body.push item with
            items := { item with comments := { item.comments with line := some token.text } }
              :: body.items
            trailing := .nothing } :=
        if_pos ⟨Trailing.noConfusion, htoken⟩
      obtain ⟨position', hmoves⟩ := Moves.comment text (.items site (body.push item)) position.line
        (position.advance [' ']) rfl
      refine ⟨_, position', ?_, ?_, .gap _ hmoves⟩
      · rw [hown _ hspace]
        rfl
      · rw [hown _ hspace]
        rfl

end OpenBody

namespace OpenList

/-- The list has these elements and these comments for the next one. If the next token is
on `line` then a comment does not belong to the last element. -/
structure AwaitsElement (list : OpenList) (elements : List Element) (pending : List String)
    (line : Nat) : Prop where
  elements_eq : list.elements = elements
  pending_eq : list.pending = pending
  awaitsComma : list.awaitsComma = false
  below : list.elements = [] ∨ list.lastLine < line

theorem AwaitsElement.comment {list : OpenList} {elements : List Element}
    {pending : List String} {line : Nat} (hawaits : list.AwaitsElement elements pending line)
    (token : Token) (hline : token.start.line = line) {line' : Nat} (hbelow : line ≤ line') :
    (list.comment token).AwaitsElement elements (token.text :: pending) line' := by
  have hcomment : list.comment token = { list with pending := token.text :: list.pending } := by
    unfold OpenList.comment
    split
    next element others helements =>
      rw [if_neg]
      rintro ⟨heq, -⟩
      rcases hawaits.below with hnil | hlt
      · rw [helements] at hnil
        cases hnil
      · omega
    next => rfl
  rw [hcomment]
  exact ⟨hawaits.elements_eq, by rw [hawaits.pending_eq], hawaits.awaitsComma,
    hawaits.below.imp_right fun hlt => hlt.trans_le hbelow⟩

/-- Comments on lines of their own are kept for the next element. -/
theorem AwaitsElement.moves_linesPieces {list : OpenList} {elements : List Element}
    {pending : List String} {position : Position}
    (hawaits : list.AwaitsElement elements pending position.line) {margin : String}
    (hmargin : '\n' ∉ margin.toList) (texts : List String) (slot : Slot) (lastLine : Nat) :
    ∃ list' lastLine' position',
      list'.AwaitsElement elements ((texts.map withoutReturn).reverse ++ pending)
        position'.line ∧
      Moves (linesPieces margin texts) ⟨.list slot list, lastLine, position⟩
        ⟨.list slot list', lastLine', position'⟩ := by
  induction texts generalizing list pending lastLine position with
  | nil => exact ⟨list, lastLine, position, hawaits, .nil _⟩
  | cons text texts ih =>
      have hline := position.line_advance_of_not_mem hmargin
      obtain ⟨position₁, hcomment⟩ := Moves.comment text (.list slot list) lastLine
        (position.advance margin.toList) rfl
      have hbelow : position.line ≤ (position₁.advance ['\n']).line := by
        rw [Position.line_advance, ← hline]
        exact hcomment.le_line.trans (Nat.le_add_right _ _)
      have hnext := hawaits.comment ⟨.comment, withoutReturn text,
        position.advance margin.toList,
        (position.advance margin.toList).advance (withoutReturn text).toList⟩ hline hbelow
      obtain ⟨list', lastLine', position', hawaits', hmoves⟩ := ih hnext position₁.line
      refine ⟨list', lastLine', position', ?_, ?_⟩
      · simpa using hawaits'
      · exact .gap _ (hcomment.append (.gap _ hmoves))

/-- The comment behind the comma of an element is the element's own. -/
theorem moves_trailingPieces (list : OpenList) {element : Element} {elements : List Element}
    (helements : list.elements = element :: elements) (hcomment : element.comments.line = none)
    {position : Position} (hline : list.lastLine = position.line) (slot : Slot)
    (comment : Option String) :
    ∃ list' position',
      list'.elements = { element with comments :=
        { element.comments with line := comment.map withoutReturn } } :: elements ∧
      list'.pending = list.pending ∧ list'.awaitsComma = list.awaitsComma ∧
      list'.lastLine ≤ position'.line ∧
      Moves (trailingPieces comment) ⟨.list slot list, position.line, position⟩
        ⟨.list slot list', position'.line, position'⟩ := by
  cases comment with
  | none =>
      refine ⟨list, position, ?_, rfl, rfl, hline.le, .nil _⟩
      obtain ⟨value, ⟨lead, line⟩⟩ := element
      cases hcomment
      exact helements
  | some text =>
      have hspace : (position.advance [' ']).line = position.line :=
        position.line_advance_of_not_mem (by decide)
      have hown (token : Token) (htoken : token.start.line = position.line) :
          list.comment token = { list with
            elements := { element with comments :=
              { element.comments with line := some token.text } } :: elements } := by
        rw [OpenList.comment, helements]
        exact if_pos ⟨htoken.trans hline.symm, hcomment⟩
      obtain ⟨position', hmoves⟩ := Moves.comment text (.list slot list) position.line
        (position.advance [' ']) rfl
      refine ⟨_, position', ?_, ?_, ?_, ?_, .gap _ hmoves⟩
      · rw [hown _ hspace]
        rfl
      · rw [hown _ hspace]
      · rw [hown _ hspace]
      · rw [hown _ hspace]
        exact (hline.trans hspace.symm).le.trans hmoves.le_line

end OpenList

end HclEditor
