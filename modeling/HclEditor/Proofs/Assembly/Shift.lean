import Mathlib
import HclEditor.Proofs.Assembly.Derivation
import HclEditor.Proofs.Token.Slice

/-!
# Reading further ahead

What is read from tokens that lie further ahead in a text is the same, except that the spans of
its items lie further ahead too. Only the lines of tokens are compared, with one another and, by
a body at the top of a document, with the line of no token at all.
-/

namespace HclEditor

/-- The span in a text of a span in the part of it that starts at an offset. -/
def Span.shift (offset : Nat) (span : Span) : Span :=
  ⟨offset + span.start, offset + span.stop⟩

mutual

/-- The value with the spans in it shifted. -/
def Value.shift (offset : Nat) : Value → Value
  | .literal literal => .literal literal
  | .object body => .object (body.shift offset)
  | .list list => .list (list.shift offset)

/-- The body with the spans of its items shifted, and those in them. -/
def Body.shift (offset : Nat) : Body → Body
  | ⟨items, dangling⟩ => ⟨Item.shiftAll offset items, dangling⟩

/-- The items with their spans and those in them shifted. -/
def Item.shiftAll (offset : Nat) : List Item → List Item
  | [] => []
  | item :: items => item.shift offset :: Item.shiftAll offset items

/-- The item with its span and those in its value shifted. -/
def Item.shift (offset : Nat) : Item → Item
  | ⟨keys, value, assigned, comments, blankBefore, span⟩ =>
      ⟨keys, value.shift offset, assigned, comments, blankBefore, span.map (·.shift offset)⟩

/-- The list with the spans in its elements shifted. -/
def ListBody.shift (offset : Nat) : ListBody → ListBody
  | ⟨elements, dangling⟩ => ⟨Element.shiftAll offset elements, dangling⟩

/-- The elements with the spans in them shifted. -/
def Element.shiftAll (offset : Nat) : List Element → List Element
  | [] => []
  | element :: elements => element.shift offset :: Element.shiftAll offset elements

/-- The element with the spans in its value shifted. -/
def Element.shift (offset : Nat) : Element → Element
  | ⟨value, comments⟩ => ⟨value.shift offset, comments⟩

end

theorem Value.isObject_shift (offset : Nat) (value : Value) :
    (value.shift offset).isObject = value.isObject := by
  cases value <;> rfl

theorem Item.shiftAll_eq_map (offset : Nat) (items : List Item) :
    Item.shiftAll offset items = items.map (.shift offset) := by
  induction items with
  | nil => rfl
  | cons item items ih => rw [Item.shiftAll, ih, List.map_cons]

theorem Element.shiftAll_eq_map (offset : Nat) (elements : List Element) :
    Element.shiftAll offset elements = elements.map (.shift offset) := by
  induction elements with
  | nil => rfl
  | cons element elements ih => rw [Element.shiftAll, ih, List.map_cons]

/-- The body with the spans in its items shifted. -/
def OpenBody.shift (offset : Nat) (body : OpenBody) : OpenBody :=
  { body with items := Item.shiftAll offset body.items }

/-- The item with the start of its span shifted. -/
def OpenItem.shift (offset : Nat) (entry : OpenItem) : OpenItem :=
  { entry with start := offset + entry.start }

namespace OpenBody

theorem close_shift (offset : Nat) (body : OpenBody) :
    (body.shift offset).close = body.close.shift offset := by
  rw [close, close, shift, Body.shift, Item.shiftAll_eq_map, Item.shiftAll_eq_map,
    List.map_reverse]

variable (front : Position) (body : OpenBody) {lastLine : Nat} (hline : 0 < lastLine)
  (token : Token)
include hline

theorem blankBeforeItem_behind :
    (body.shift front.offset).blankBeforeItem (front.line - 1 + lastLine) (token.behind front) =
      body.blankBeforeItem lastLine token := by
  have hblank : blankLineBefore (front.line - 1 + lastLine) (token.behind front) =
      blankLineBefore lastLine token := by
    have hpos : 0 < front.line - 1 + lastLine := Nat.add_pos_right _ hline
    simp only [blankLineBefore, Token.behind, Position.behind, hline, hpos, Nat.add_assoc,
      Nat.add_lt_add_iff_left]
  rw [blankBeforeItem, hblank, blankBeforeItem]
  rfl

theorem comment_behind :
    (body.shift front.offset).comment (front.line - 1 + lastLine) (token.behind front) =
      (body.comment lastLine token).shift front.offset := by
  have hlead : (body.shift front.offset).leadComment (front.line - 1 + lastLine)
      (token.behind front) = (body.leadComment lastLine token).shift front.offset := by
    rw [leadComment, body.blankBeforeItem_behind front hline]
    rfl
  obtain ⟨items, lead, blankBefore, trailing⟩ := body
  cases items with
  | nil => exact hlead
  | cons item items =>
      have hsame : (token.behind front).start.line = front.line - 1 + lastLine ↔
          token.start.line = lastLine := by
        rw [Token.behind, Position.behind, Nat.add_left_cancel_iff]
      rw [comment, comment]
      simp only [shift, Item.shiftAll, hsame]
      split
      · cases item
        rfl
      · exact hlead

theorem startItem_behind (kind : KeyKind) :
    (body.shift front.offset).startItem (front.line - 1 + lastLine) kind (token.behind front) =
      (body.startItem lastLine kind token).shift front.offset := by
  rw [startItem, body.blankBeforeItem_behind front hline]
  rfl

end OpenBody

theorem exists_of_map_eq_concat {α β : Type} {f : α → β} {list : List α} {init : List β}
    {last : β} (hmap : list.map f = init ++ [last]) :
    ∃ init' last', list = init' ++ [last'] ∧ init'.map f = init ∧ f last' = last := by
  obtain ⟨init', only, rfl, hinit, honly⟩ := List.map_eq_append_iff.mp hmap
  obtain ⟨last', rfl, hlast⟩ := List.map_eq_singleton_iff.mp honly
  exact ⟨init', last', rfl, hinit, hlast⟩

namespace OpenBody.Opens

/-- The tokens that open an item open it behind another body too, where it has the same keys,
sign and start. -/
theorem elsewhere {body : OpenBody} {lastLine : Nat} {tokens : List Token} {entry : OpenItem}
    (hopens : body.Opens lastLine tokens entry) (other : OpenBody) (line : Nat) :
    ∃ opened, other.Opens line tokens opened ∧ opened.keys = entry.keys ∧
      opened.assigned = entry.assigned ∧ opened.start = entry.start := by
  induction hopens with
  | first hkey => exact ⟨_, .first hkey, rfl, rfl, rfl⟩
  | @key tokens entry token kind _ hassigned hkey ih =>
      obtain ⟨opened, hopened, hkeys, hsign, hstart⟩ := ih
      exact ⟨_, hopened.key (hsign.trans hassigned) hkey,
        congrArg (List.cons (Key.mk kind token.text)) hkeys, hsign, hstart⟩
  | assign _ hassigned hkind ih =>
      obtain ⟨opened, hopened, hkeys, hsign, hstart⟩ := ih
      exact ⟨_, hopened.assign (hsign.trans hassigned) hkind, hkeys, rfl, hstart⟩
  | comment _ hassigned hkind ih =>
      obtain ⟨opened, hopened, hkeys, hsign, hstart⟩ := ih
      exact ⟨_, hopened.comment (hsign.trans hassigned) hkind, hkeys, hsign, hstart⟩

/-- An item that tokens further ahead open is opened by these tokens, and starts further
ahead. -/
theorem of_behind {front : Position} {body : OpenBody} {lastLine : Nat} (hline : 0 < lastLine)
    {tokens : List Token} {entry : OpenItem}
    (hopens : (body.shift front.offset).Opens (front.line - 1 + lastLine)
      (tokens.map (.behind front)) entry) :
    ∃ opened, entry = opened.shift front.offset ∧ body.Opens lastLine tokens opened := by
  generalize hmoved : tokens.map (Token.behind front) = moved at hopens
  induction hopens generalizing tokens with
  | @first token kind hkey =>
      obtain ⟨token, rfl, rfl⟩ := List.map_eq_singleton_iff.mp hmoved
      exact ⟨_, body.startItem_behind front hline token kind, .first hkey⟩
  | key _ hassigned hkey ih =>
      obtain ⟨tokens, token, rfl, hinit, rfl⟩ := exists_of_map_eq_concat hmoved
      obtain ⟨opened, rfl, hopened⟩ := ih hinit
      exact ⟨_, rfl, hopened.key hassigned hkey⟩
  | assign _ hassigned hkind ih =>
      obtain ⟨tokens, token, rfl, hinit, rfl⟩ := exists_of_map_eq_concat hmoved
      obtain ⟨opened, rfl, hopened⟩ := ih hinit
      exact ⟨_, rfl, hopened.assign hassigned hkind⟩
  | comment _ hassigned hkind ih =>
      obtain ⟨tokens, token, rfl, hinit, rfl⟩ := exists_of_map_eq_concat hmoved
      obtain ⟨opened, rfl, hopened⟩ := ih hinit
      exact ⟨_, rfl, hopened.comment hassigned hkind⟩

/-- At the top of a document these tokens open the same item, which starts less far ahead. -/
theorem alone {front : Position} {body : OpenBody} {lastLine : Nat} {tokens : List Token}
    {entry : OpenItem} (hopens : body.Opens lastLine (tokens.map (.behind front)) entry) :
    ∃ opened, OpenBody.Opens {} 0 tokens opened ∧ opened.keys = entry.keys ∧
      opened.assigned = entry.assigned ∧ front.offset + opened.start = entry.start := by
  obtain ⟨moved, hmoved, hkeys, hsign, hstart⟩ :=
    hopens.elsewhere (OpenBody.shift front.offset {}) (front.line - 1 + 1)
  obtain ⟨inner, rfl, hinner⟩ := hmoved.of_behind Nat.one_pos
  obtain ⟨opened, hopened, hkeys', hsign', hstart'⟩ := hinner.elsewhere {} 0
  exact ⟨opened, hopened, hkeys'.trans hkeys, hsign'.trans hsign,
    (congrArg (front.offset + ·) hstart').trans hstart⟩

end OpenBody.Opens

/-- The list is the other one with the spans in it shifted and read further ahead. The line that
its last element ended on counts only where it has one. -/
structure OpenList.Behind (front : Position) (list other : OpenList) : Prop where
  elements : list.elements = Element.shiftAll front.offset other.elements
  pending : list.pending = other.pending
  awaitsComma : list.awaitsComma = other.awaitsComma
  lastLine : other.elements ≠ [] → list.lastLine = front.line - 1 + other.lastLine

namespace OpenList.Behind

variable {front : Position} {list other : OpenList} (hbehind : list.Behind front other)
include hbehind

theorem close : list.close = other.close.shift front.offset := by
  rw [OpenList.close, OpenList.close, ListBody.shift, hbehind.elements, hbehind.pending,
    Element.shiftAll_eq_map, Element.shiftAll_eq_map, List.map_reverse]

theorem push (value : Value) (line : Nat) :
    (list.push (value.shift front.offset) (front.line - 1 + line)).Behind front
      (other.push value line) where
  elements := by
    rw [OpenList.push, hbehind.elements, hbehind.pending]
    rfl
  pending := rfl
  awaitsComma := rfl
  lastLine _ := rfl

theorem comment (token : Token) :
    (list.comment (token.behind front)).Behind front (other.comment token) := by
  obtain ⟨moved, pending, movedLine, awaitsComma⟩ := list
  obtain ⟨elements, pending', lastLine, awaitsComma'⟩ := other
  obtain ⟨helements, hpending, hawaits, hline⟩ := hbehind
  dsimp only at helements hpending hawaits hline
  subst helements hpending hawaits
  cases elements with
  | nil => exact ⟨rfl, rfl, rfl, hline⟩
  | cons element elements =>
      obtain rfl : movedLine = front.line - 1 + lastLine := hline (List.cons_ne_nil _ _)
      have hsame : (token.behind front).start.line = front.line - 1 + lastLine ↔
          token.start.line = lastLine := by
        rw [Token.behind, Position.behind, Nat.add_left_cancel_iff]
      rw [OpenList.comment, OpenList.comment]
      simp only [Element.shiftAll, hsame]
      obtain ⟨value, comments⟩ := element
      rw [Element.shift]
      split <;> exact ⟨rfl, rfl, rfl, fun _ => rfl⟩

end OpenList.Behind

mutual

/-- A value that is read from tokens further ahead is read from these tokens, and the spans in it
lie further ahead. -/
theorem Value.ReadFrom.of_behind {front : Position} {own moved : List Token} {last stop : Token}
    {value : Value} (hvalue : Value.ReadFrom moved stop value)
    (hmoved : own.map (.behind front) = moved) (hstop : last.behind front = stop)
    (hlines : ∀ token ∈ own, 0 < token.stop.line) :
    ∃ again, value = again.shift front.offset ∧ Value.ReadFrom own last again := by
  cases hvalue with
  | literal hkind =>
      obtain rfl := List.map_eq_nil_iff.mp hmoved
      subst hstop
      exact ⟨.literal _, rfl, .literal hkind⟩
  | object hopening hbody hclosing =>
      obtain ⟨opening, tokens, rfl, rfl, hinit⟩ := List.map_eq_cons_iff.mp hmoved
      subst hstop
      obtain ⟨hopened, hlines⟩ := List.forall_mem_cons.mp hlines
      obtain ⟨again, line, rfl, -, -, hread⟩ := hbody.of_behind rfl hopened hinit hlines
      exact ⟨_, congrArg Value.object (again.close_shift _), .object hopening hread hclosing⟩
  | list hopening hlist hclosing =>
      obtain ⟨opening, tokens, rfl, rfl, hinit⟩ := List.map_eq_cons_iff.mp hmoved
      subst hstop
      obtain ⟨-, hlines⟩ := List.forall_mem_cons.mp hlines
      obtain ⟨again, hbehind, hread⟩ := hlist.of_behind hinit hlines
      exact ⟨.list again.close, congrArg Value.list hbehind.close,
        .list hopening hread hclosing⟩
termination_by own.length
decreasing_by all_goals subst_vars; simp

/-- So is a body, behind a token whose line is that much further ahead. -/
theorem OpenBody.ReadFrom.of_behind {front : Position} {line first lastLine : Nat}
    {tokens moved : List Token} {body : OpenBody}
    (hbody : OpenBody.ReadFrom line moved body lastLine) (hline : line = front.line - 1 + first)
    (hfirst : 0 < first) (hmoved : tokens.map (.behind front) = moved)
    (hlines : ∀ token ∈ tokens, 0 < token.stop.line) :
    ∃ again stop, body = again.shift front.offset ∧ lastLine = front.line - 1 + stop ∧
      0 < stop ∧ OpenBody.ReadFrom first tokens again stop := by
  cases hbody with
  | nil =>
      obtain rfl := List.map_eq_nil_iff.mp hmoved
      exact ⟨{}, first, rfl, hline, hfirst, .nil first⟩
  | comment hbody hkind =>
      obtain ⟨tokens, token, rfl, hinit, rfl⟩ := exists_of_map_eq_concat hmoved
      obtain ⟨hlines, htoken⟩ := List.forall_mem_append.mp hlines
      obtain ⟨again, stop, rfl, rfl, hstop, hread⟩ := hbody.of_behind hline hfirst hinit hlines
      exact ⟨_, _, again.comment_behind front hstop token, rfl,
        htoken _ (List.mem_singleton_self _), hread.comment hkind⟩
  | comma hbody hkind htrailing =>
      obtain ⟨tokens, token, rfl, hinit, rfl⟩ := exists_of_map_eq_concat hmoved
      obtain ⟨hlines, htoken⟩ := List.forall_mem_append.mp hlines
      obtain ⟨again, stop, rfl, rfl, hstop, hread⟩ := hbody.of_behind hline hfirst hinit hlines
      exact ⟨_, _, rfl, rfl, htoken _ (List.mem_singleton_self _), hread.comma hkind htrailing⟩
  | item hbody hopens hvalue htakes =>
      obtain ⟨tokens, taken, rfl, hinit, htaken⟩ := List.map_eq_append_iff.mp hmoved
      obtain ⟨opened, last, rfl, hopened, rfl⟩ := exists_of_map_eq_concat htaken
      obtain ⟨head, own, rfl, rfl, hown⟩ := List.map_eq_append_iff.mp hopened
      simp only [List.forall_mem_append, List.forall_mem_singleton] at hlines
      obtain ⟨hlines, ⟨-, howns⟩, hlast⟩ := hlines
      have hvalues := hvalue.of_behind hown rfl howns
      obtain ⟨again, stop, rfl, rfl, hstop, hread⟩ := hbody.of_behind hline hfirst hinit hlines
      obtain ⟨opened, rfl, hopened⟩ := hopens.of_behind hstop
      obtain ⟨value, rfl, hagain⟩ := hvalues
      rw [value.isObject_shift] at htakes
      exact ⟨_, _, rfl, rfl, hlast, hread.item hopened hagain htakes⟩
termination_by tokens.length
decreasing_by all_goals subst_vars; simp [Nat.lt_add_left]

/-- So is a list. -/
theorem OpenList.ReadFrom.of_behind {front : Position} {tokens moved : List Token}
    {list : OpenList} (hlist : list.ReadFrom moved) (hmoved : tokens.map (.behind front) = moved)
    (hlines : ∀ token ∈ tokens, 0 < token.stop.line) :
    ∃ again, list.Behind front again ∧ again.ReadFrom tokens := by
  cases hlist with
  | nil =>
      obtain rfl := List.map_eq_nil_iff.mp hmoved
      exact ⟨{}, ⟨rfl, rfl, rfl, fun hnone => absurd rfl hnone⟩, .nil⟩
  | comment hlist hkind =>
      obtain ⟨tokens, token, rfl, hinit, rfl⟩ := exists_of_map_eq_concat hmoved
      obtain ⟨again, hbehind, hread⟩ :=
        hlist.of_behind hinit (List.forall_mem_append.mp hlines).1
      exact ⟨_, hbehind.comment token, hread.comment hkind⟩
  | comma hlist hkind hawaits =>
      obtain ⟨tokens, token, rfl, hinit, rfl⟩ := exists_of_map_eq_concat hmoved
      obtain ⟨again, hbehind, hread⟩ :=
        hlist.of_behind hinit (List.forall_mem_append.mp hlines).1
      exact ⟨{ again with awaitsComma := false },
        ⟨hbehind.elements, hbehind.pending, rfl, hbehind.lastLine⟩,
        hread.comma hkind (hbehind.awaitsComma.symm.trans hawaits)⟩
  | element hlist hawaits hvalue =>
      obtain ⟨tokens, taken, rfl, hinit, htaken⟩ := List.map_eq_append_iff.mp hmoved
      obtain ⟨own, last, rfl, hown, rfl⟩ := exists_of_map_eq_concat htaken
      simp only [List.forall_mem_append, List.forall_mem_singleton] at hlines
      obtain ⟨hlines, howns, -⟩ := hlines
      obtain ⟨again, hbehind, hread⟩ := hlist.of_behind hinit hlines
      obtain ⟨value, rfl, hagain⟩ := hvalue.of_behind hown rfl howns
      exact ⟨_, hbehind.push value last.stop.line,
        hread.element (hbehind.awaitsComma.symm.trans hawaits) hagain⟩
termination_by tokens.length
decreasing_by all_goals subst_vars; simp [Nat.lt_add_left]

end

end HclEditor
