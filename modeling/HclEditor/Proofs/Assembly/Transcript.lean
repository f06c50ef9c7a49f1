import Mathlib
import HclEditor.Proofs.Assembly.Soundness
import HclEditor.Proofs.Token.Stream

/-!
# Documents keep their tokens

Written out again, a document has the tokens of its source, without the commas: the keys,
signs and literals in their order, and the comments in theirs. The two orders are kept
apart since a comment between `=` and a value ends up above the item. What has been read
up to a reading point can be written out too, and each token adds itself to that. For a
comment this rests on the lines: one that is given to the last item or element has no other
comment before it.
-/

namespace HclEditor

/-- A token without its place. -/
structure Mark where
  kind : TokenKind
  text : String
deriving DecidableEq, Repr

namespace Mark

def comment (text : String) : Mark :=
  ⟨.comment, text⟩

def key (key : Key) : Mark :=
  ⟨key.kind.tokenKind, key.text⟩

/-- The sign in front of the value of an assigned item. -/
def sign (assigned : Bool) : List Mark :=
  if assigned then [⟨.assign, "="⟩] else []

end Mark

mutual

/-- The value as it is written, without commas. -/
def Value.marks : Value → List Mark
  | .literal literal => [⟨.literal literal.kind, literal.text⟩]
  | .object body => [⟨.openBrace, "\x7b"⟩] ++ body.marks ++ [⟨.closeBrace, "\x7d"⟩]
  | .list list => [⟨.openBracket, "["⟩] ++ list.marks ++ [⟨.closeBracket, "]"⟩]

/-- The items of a body in order, then its dangling comments. -/
def Body.marks : Body → List Mark
  | ⟨items, dangling⟩ => Mark.ofItems items ++ dangling.map .comment

def Mark.ofItems : List Item → List Mark
  | [] => []
  | item :: items => item.marks ++ Mark.ofItems items

/-- The comments above an item, its keys and value, and the comment behind it. -/
def Item.marks : Item → List Mark
  | ⟨keys, value, assigned, comments, _, _⟩ =>
      comments.lead.map .comment ++ keys.map .key ++ Mark.sign assigned ++ value.marks ++
        comments.line.toList.map .comment

/-- The elements of a list in order, then its dangling comments. -/
def ListBody.marks : ListBody → List Mark
  | ⟨elements, dangling⟩ => Mark.ofElements elements ++ dangling.map .comment

def Mark.ofElements : List Element → List Mark
  | [] => []
  | element :: elements => element.marks ++ Mark.ofElements elements

/-- The comments above an element, its value, and the comment behind it. -/
def Element.marks : Element → List Mark
  | ⟨value, comments⟩ =>
      comments.lead.map .comment ++ value.marks ++ comments.line.toList.map .comment

end

def Token.mark (token : Token) : Mark :=
  ⟨token.kind, token.text⟩

/-- The token as a document keeps it: not at all if it is a comma. -/
def Token.marks (token : Token) : List Mark :=
  if token.kind = .comma then [] else [token.mark]

namespace Mark

theorem ofItems_append (first second : List Item) :
    ofItems (first ++ second) = ofItems first ++ ofItems second := by
  induction first with
  | nil => rfl
  | cons item items ih => rw [List.cons_append, ofItems, ofItems, ih, List.append_assoc]

theorem ofElements_append (first second : List Element) :
    ofElements (first ++ second) = ofElements first ++ ofElements second := by
  induction first with
  | nil => rfl
  | cons element elements ih =>
      rw [List.cons_append, ofElements, ofElements, ih, List.append_assoc]

/-- The same comments in the same order, and the same of everything else. -/
structure Agree (first second : List Mark) : Prop where
  comments : first.filter (·.kind = .comment) = second.filter (·.kind = .comment)
  others : first.filter (·.kind ≠ .comment) = second.filter (·.kind ≠ .comment)

namespace Agree

theorem refl (marks : List Mark) : Agree marks marks :=
  ⟨rfl, rfl⟩

theorem of_eq {first second : List Mark} (heq : first = second) : Agree first second :=
  heq ▸ refl first

theorem trans {first second third : List Mark} (hfirst : Agree first second)
    (hsecond : Agree second third) : Agree first third :=
  ⟨hfirst.comments.trans hsecond.comments, hfirst.others.trans hsecond.others⟩

theorem append {first second before after : List Mark} (hfirst : Agree first second)
    (hbefore : Agree before after) : Agree (first ++ before) (second ++ after) := by
  refine ⟨?_, ?_⟩
  · rw [List.filter_append, List.filter_append, hfirst.comments, hbefore.comments]
  · rw [List.filter_append, List.filter_append, hfirst.others, hbefore.others]

/-- A comment may move to the front of what is no comment. -/
theorem comment_front (text : String) {marks : List Mark}
    (hmarks : ∀ mark ∈ marks, mark.kind ≠ .comment) :
    Agree (comment text :: marks) (marks ++ [comment text]) := by
  have hcomments : marks.filter (·.kind = .comment) = [] :=
    List.filter_eq_nil_iff.mpr fun mark hmark => by simpa using hmarks mark hmark
  refine ⟨?_, ?_⟩
  · rw [List.filter_append, hcomments, List.filter_cons, hcomments]
    rfl
  · rw [List.filter_append, List.filter_cons]
    simp [comment]

end Agree

end Mark

def OpenBody.marks (body : OpenBody) : List Mark :=
  body.close.marks

def OpenItem.marks (item : OpenItem) : List Mark :=
  item.lead.reverse.map .comment ++ item.keys.reverse.map .key ++ Mark.sign item.assigned

def OpenList.marks (list : OpenList) : List Mark :=
  list.close.marks

mutual

/-- What stands in front of the body. -/
def Site.marks : Site → List Mark
  | .document => []
  | .object slot => slot.marks ++ [⟨.openBrace, "\x7b"⟩]

/-- What stands in front of the value. -/
def Slot.marks : Slot → List Mark
  | .item site body entry => site.marks ++ Mark.ofItems body.items.reverse ++ entry.marks
  | .element slot list => slot.marks ++ [⟨.openBracket, "["⟩] ++ list.marks

end

/-- What has been read up to the reading point. -/
def ReadingPoint.marks : ReadingPoint → List Mark
  | .items site body => site.marks ++ body.marks
  | .keys site body entry => (Slot.item site body entry).marks
  | .value site body entry => (Slot.item site body entry).marks
  | .list slot elements => (Slot.element slot elements).marks

/-- A comment that may still be given to the last item is the first behind it. -/
def OpenBody.InOrder (body : OpenBody) : Prop :=
  body.trailing ≠ .nothing →
    body.lead = [] ∧ ∀ item ∈ body.items.head?, item.comments.line = none

/-- A comment that is given to the last element is the first behind it: others would be
given to it already, or stand on a lower line. -/
def OpenList.InOrder (list : OpenList) (lastLine : Nat) : Prop :=
  list.lastLine ≤ lastLine ∧
    ∀ element ∈ list.elements.head?, list.pending = [] ∨ element.comments.line.isSome ∨
      list.lastLine < lastLine

/-- The next token, the last one having ended on `lastLine`, adds to the end of what has
been read. -/
def ReadingPoint.InOrder (lastLine : Nat) : ReadingPoint → Prop
  | .items _ body => body.InOrder
  | .keys _ _ entry => entry.assigned = false
  | .value _ _ _ => True
  | .list _ elements => elements.InOrder lastLine

namespace Token

variable {token : Token}

theorem marks_of_comment (hkind : token.kind = .comment) :
    token.marks = [Mark.comment token.text] := by
  rw [marks, mark, hkind, if_neg (by simp)]
  rfl

theorem marks_of_comma (hkind : token.kind = .comma) : token.marks = [] := by
  rw [marks, if_pos hkind]

theorem marks_of_literal {kind : LiteralKind} (hkind : token.kind = .literal kind) :
    token.marks = [⟨.literal kind, token.text⟩] := by
  rw [marks, mark, hkind, if_neg (by simp)]

theorem marks_of_key {kind : KeyKind} (hkind : token.kind.keyKind? = some kind) :
    token.marks = [Mark.key ⟨kind, token.text⟩] := by
  have htoken := TokenKind.eq_of_keyKind? hkind
  rw [marks, mark, htoken, if_neg (by cases kind <;> simp [KeyKind.tokenKind])]
  rfl

theorem Sound.marks_of_symbol (htoken : token.Sound) {kind : TokenKind}
    (hkind : token.kind = kind) {symbol : Char} (hsymbol : kind.symbol? = some symbol)
    (hcomma : kind ≠ .comma) : token.marks = [⟨kind, String.singleton symbol⟩] := by
  subst hkind
  rw [marks, mark, if_neg hcomma, TokenKind.Reads.text_eq htoken hsymbol]

end Token

namespace OpenBody

theorem marks_eq (body : OpenBody) :
    body.marks = Mark.ofItems body.items.reverse ++ body.lead.reverse.map .comment := by
  rw [marks, close, Body.marks]

theorem marks_push (body : OpenBody) (item : Item) :
    (body.push item).marks = Mark.ofItems body.items.reverse ++ item.marks := by
  simp [marks_eq, push, Mark.ofItems_append, Mark.ofItems]

theorem marks_leadComment (body : OpenBody) (lastLine : Nat) (token : Token) :
    (body.leadComment lastLine token).marks = body.marks ++ [.comment token.text] := by
  simp [marks_eq, leadComment]

theorem InOrder.marks_comment {body : OpenBody} (hbody : body.InOrder) (lastLine : Nat)
    (token : Token) :
    (body.comment lastLine token).marks = body.marks ++ [.comment token.text] := by
  unfold OpenBody.comment
  split
  next item items hitems =>
    split
    next hlast =>
      obtain ⟨hlead, hline⟩ := hbody hlast.1
      have hnone := hline item (by simp [hitems])
      obtain ⟨keys, value, assigned, ⟨lead, line⟩, blankBefore, span⟩ := item
      obtain rfl : line = none := hnone
      simp [marks_eq, hitems, hlead, Mark.ofItems_append, Mark.ofItems, Item.marks]
    next => exact body.marks_leadComment lastLine token
  next => exact body.marks_leadComment lastLine token

theorem inOrder_of_trailing {body : OpenBody} (htrailing : body.trailing = .nothing) :
    body.InOrder :=
  fun hne => absurd htrailing hne

theorem inOrder_comment (body : OpenBody) (lastLine : Nat) (token : Token) :
    (body.comment lastLine token).InOrder :=
  inOrder_of_trailing (body.trailing_comment lastLine token)

end OpenBody

theorem OpenItem.marks_close (entry : OpenItem) (value : Value) (stop : Nat) :
    (entry.close value stop).marks = entry.marks ++ value.marks := by
  simp [close, Item.marks, marks]

/-- A comment between the sign and the value of an item is kept above the item. -/
theorem OpenItem.agree_comment (entry : OpenItem) (text : String) :
    Mark.Agree (OpenItem.marks { entry with lead := text :: entry.lead })
      (entry.marks ++ [.comment text]) := by
  have hothers (mark : Mark)
      (hmark : mark ∈ entry.keys.reverse.map .key ++ Mark.sign entry.assigned) :
      mark.kind ≠ .comment := by
    rcases List.mem_append.mp hmark with hkey | hsign
    · obtain ⟨⟨kind, name⟩, -, rfl⟩ := List.mem_map.mp hkey
      cases kind <;> simp [Mark.key, KeyKind.tokenKind]
    · rw [Mark.sign] at hsign
      split at hsign
      · obtain rfl := List.mem_singleton.mp hsign
        simp
      · cases hsign
  have hfront := Mark.Agree.comment_front text hothers
  have hall := (Mark.Agree.refl (entry.lead.reverse.map .comment)).append hfront
  simpa [marks] using hall

namespace OpenList

theorem marks_eq (list : OpenList) :
    list.marks = Mark.ofElements list.elements.reverse ++ list.pending.reverse.map .comment := by
  rw [marks, close, ListBody.marks]

theorem marks_push (list : OpenList) (value : Value) (line : Nat) :
    (list.push value line).marks = list.marks ++ value.marks := by
  simp [marks_eq, push, Mark.ofElements_append, Mark.ofElements, Element.marks]

theorem InOrder.marks_comment {list : OpenList} {lastLine : Nat} (hlist : list.InOrder lastLine)
    {token : Token} (hline : lastLine ≤ token.start.line) :
    (list.comment token).marks = list.marks ++ [.comment token.text] := by
  obtain ⟨hle, hlast⟩ := hlist
  unfold OpenList.comment
  split
  next element elements helements =>
    split
    next hown =>
      -- A comment that is pending stands on a lower line than the last element, and so
      -- does every token behind it.
      have hpending : list.pending = [] := by
        rcases hlast element (by simp [helements]) with hpending | hsome | hlt
        · exact hpending
        · simp [hown.2] at hsome
        · omega
      obtain ⟨value, ⟨lead, line⟩⟩ := element
      obtain rfl : line = none := hown.2
      simp [marks_eq, helements, hpending, Mark.ofElements_append, Mark.ofElements, Element.marks]
    next => simp [marks_eq]
  next => simp [marks_eq]

theorem InOrder.comment {list : OpenList} {lastLine : Nat} (hlist : list.InOrder lastLine)
    {token : Token} (hline : lastLine ≤ token.start.line)
    (hstop : token.start.line ≤ token.stop.line) :
    (list.comment token).InOrder token.stop.line := by
  obtain ⟨hle, -⟩ := hlist
  unfold OpenList.comment
  split
  next element elements helements =>
    split
    next hown => exact ⟨by simp only; omega, by simp⟩
    next hother =>
      refine ⟨by simp only; omega, ?_⟩
      intro last hmem
      obtain rfl : element = last := by simpa [helements] using hmem
      rw [not_and] at hother
      cases hown : element.comments.line with
      | some text => exact .inr (.inl rfl)
      | none =>
          have hne : token.start.line ≠ list.lastLine := fun heq => hother heq hown
          exact .inr (.inr (by simp only; omega))
  next helements => exact ⟨by simp only; omega, by simp [helements]⟩

theorem InOrder.mono {list : OpenList} {lastLine line : Nat} (hlist : list.InOrder lastLine)
    (hle : lastLine ≤ line) : list.InOrder line := by
  refine ⟨hlist.1.trans hle, ?_⟩
  intro element helement
  exact (hlist.2 element helement).imp_right (.imp_right hle.trans_lt')

theorem inOrder_push (list : OpenList) (value : Value) (line : Nat) :
    (list.push value line).InOrder line :=
  ⟨le_rfl, fun _ _ => .inl rfl⟩

end OpenList

namespace Slot

/-- A value that is put in its slot is written behind what stands in front of it. -/
theorem marks_fill (slot : Slot) (value : Value) (token : Token) :
    (slot.fill value token).marks = slot.marks ++ value.marks := by
  cases slot with
  | item site body entry =>
      simp [fill, ReadingPoint.marks, marks, OpenBody.marks_push, OpenItem.marks_close]
  | element slot elements => simp [fill, ReadingPoint.marks, marks, OpenList.marks_push]

theorem inOrder_fill (slot : Slot) (value : Value) (token : Token) :
    (slot.fill value token).InOrder token.stop.line := by
  cases slot with
  | item site body entry => exact fun _ => ⟨rfl, by simp [OpenBody.push, OpenItem.close]⟩
  | element slot elements => exact elements.inOrder_push value token.stop.line

theorem Starts.marks {slot : Slot} {token : Token} (htoken : token.Sound) {next : ReadingPoint}
    (hstarts : slot.Starts token next) :
    next.marks = slot.marks ++ token.marks ∧ next.InOrder token.stop.line := by
  cases hstarts with
  | scalar hkind =>
      rw [marks_fill, Token.marks_of_literal hkind]
      exact ⟨rfl, slot.inOrder_fill _ token⟩
  | object hkind =>
      rw [htoken.marks_of_symbol hkind rfl (by simp)]
      refine ⟨?_, OpenBody.inOrder_of_trailing rfl⟩
      simp [ReadingPoint.marks, Site.marks, OpenBody.marks_eq, Mark.ofItems]
  | list hkind =>
      rw [htoken.marks_of_symbol hkind rfl (by simp)]
      refine ⟨?_, Nat.zero_le _, by simp⟩
      simp [ReadingPoint.marks, Slot.marks, OpenList.marks_eq, Mark.ofElements]

end Slot

/-- A token adds itself to what has been read. -/
theorem ReadingPoint.InOrder.step {point next : ReadingPoint} {lastLine : Nat}
    (hpoint : point.InOrder lastLine) {token : Token} (htoken : token.Sound)
    (hline : lastLine ≤ token.start.line) (hstop : token.start.line ≤ token.stop.line)
    (hstep : point.step lastLine token = .ok next) :
    Mark.Agree next.marks (point.marks ++ token.marks) ∧ next.InOrder token.stop.line := by
  cases advances_of_step hstep with
  | @comment site body hkind =>
      refine ⟨.of_eq ?_, body.inOrder_comment lastLine token⟩
      rw [marks, marks, OpenBody.InOrder.marks_comment hpoint, Token.marks_of_comment hkind,
        List.append_assoc]
  | comma hkind htrailing =>
      refine ⟨.of_eq ?_, fun _ => hpoint (by simp [htrailing])⟩
      rw [Token.marks_of_comma hkind, List.append_nil]
      rfl
  | @closeObject slot body hkind =>
      refine ⟨.of_eq ?_, slot.inOrder_fill _ token⟩
      rw [Slot.marks_fill, htoken.marks_of_symbol hkind rfl (by simp)]
      simp [marks, Site.marks, Value.marks, OpenBody.marks]
  | firstKey hkey =>
      refine ⟨.of_eq ?_, rfl⟩
      rw [Token.marks_of_key hkey]
      simp [marks, Slot.marks, OpenBody.marks_eq, OpenBody.startItem, OpenItem.marks, Mark.sign]
  | @nextKey site body entry kind hkey =>
      have hassigned : entry.assigned = false := hpoint
      refine ⟨.of_eq ?_, hassigned⟩
      rw [Token.marks_of_key hkey]
      simp [marks, Slot.marks, OpenItem.addKey, OpenItem.marks, Mark.sign, hassigned]
  | @assign site body entry hkind =>
      have hassigned : entry.assigned = false := hpoint
      refine ⟨.of_eq ?_, trivial⟩
      rw [htoken.marks_of_symbol hkind rfl (by simp)]
      simp [marks, Slot.marks, OpenItem.marks, Mark.sign, hassigned]
  | block hkind =>
      refine ⟨.of_eq ?_, OpenBody.inOrder_of_trailing rfl⟩
      rw [htoken.marks_of_symbol hkind rfl (by simp)]
      simp [marks, Site.marks, OpenBody.marks_eq, Mark.ofItems]
  | @valueComment site body entry hkind =>
      -- Of all tokens only this one is not kept where it was read.
      refine ⟨?_, trivial⟩
      rw [Token.marks_of_comment hkind]
      simp only [marks, Slot.marks]
      rw [List.append_assoc _ _ [_]]
      exact (Mark.Agree.refl _).append (entry.agree_comment token.text)
  | value hstarts =>
      obtain ⟨hmarks, horder⟩ := hstarts.marks htoken
      exact ⟨.of_eq hmarks, horder⟩
  | listComment hkind =>
      refine ⟨.of_eq ?_, OpenList.InOrder.comment hpoint hline hstop⟩
      simp only [marks, Slot.marks]
      rw [OpenList.InOrder.marks_comment hpoint hline, Token.marks_of_comment hkind,
        List.append_assoc _ _ [_]]
  | listComma hkind hawaits =>
      refine ⟨.of_eq ?_, OpenList.InOrder.mono hpoint (hline.trans hstop)⟩
      rw [Token.marks_of_comma hkind, List.append_nil]
      rfl
  | @closeList slot elements hkind =>
      refine ⟨.of_eq ?_, slot.inOrder_fill _ token⟩
      rw [Slot.marks_fill, htoken.marks_of_symbol hkind rfl (by simp)]
      simp [marks, Slot.marks, Value.marks, OpenList.marks]
  | element hawaits hstarts =>
      obtain ⟨hmarks, horder⟩ := hstarts.marks htoken
      exact ⟨.of_eq hmarks, horder⟩

/-- What is read adds its tokens to what had been read. -/
theorem Assembly.agree_of_run {assembly after : Assembly} {tokens : List Token}
    (horder : assembly.point.InOrder assembly.lastLine) (htokens : ∀ token ∈ tokens, token.Sound)
    (hdescends : TokenStream.Descends assembly.lastLine tokens)
    (hrun : assembly.run tokens = .ok after) :
    Mark.Agree after.point.marks (assembly.point.marks ++ tokens.flatMap Token.marks) := by
  induction tokens generalizing assembly with
  | nil =>
      cases hrun
      rw [List.flatMap_nil, List.append_nil]
      exact .refl _
  | cons token tokens ih =>
      obtain ⟨htoken, htokens⟩ := List.forall_mem_cons.mp htokens
      obtain ⟨hline, hstop, hrest⟩ := hdescends
      obtain ⟨next, hstep, hnext⟩ := run_cons_eq_ok.mp hrun
      obtain ⟨hagree, horder⟩ := horder.step htoken hline hstop hstep
      rw [List.flatMap_cons, ← List.append_assoc]
      exact (ih horder htokens hrest hnext).trans (hagree.append (.refl _))

theorem Token.filter_flatMap_marks (p : Mark → Bool) (tokens : List Token) :
    (tokens.flatMap Token.marks).filter p =
      (tokens.filter fun token => token.kind ≠ .comma && p token.mark).map Token.mark := by
  induction tokens with
  | nil => rfl
  | cons token tokens ih =>
      rw [List.flatMap_cons, List.filter_append, ih, List.filter_cons, marks]
      by_cases hcomma : token.kind = .comma
      · simp [hcomma]
      · cases hp : p token.mark <;> simp [hcomma, hp]

namespace Document

/-- A document has the tokens of its source other than the commas: the comments in their
order, and the others in theirs. -/
theorem parse_keeps_marks {source : String} {document : Document}
    (hparse : parse source = .ok document) :
    ∃ stream, TokenStream.scan source = .ok stream ∧
      document.body.marks.filter (·.kind ≠ .comment) =
        (stream.tokens.filter fun token =>
          token.kind ≠ .comment ∧ token.kind ≠ .comma).map Token.mark ∧
      document.body.marks.filter (·.kind = .comment) =
        (stream.tokens.filter (·.kind = .comment)).map Token.mark := by
  obtain ⟨stream, opened, lastLine, hscan, hrun, rfl⟩ := parse_eq_ok.mp hparse
  have hstart : Assembly.start.point.InOrder Assembly.start.lastLine :=
    OpenBody.inOrder_of_trailing rfl
  have hdescends : TokenStream.Descends Assembly.start.lastLine stream.tokens :=
    (TokenStream.descends_of_scanFrom hscan).of_le (Nat.zero_le _)
  have hagree := Assembly.agree_of_run hstart (TokenStream.sound_of_scan hscan) hdescends hrun
  refine ⟨stream, hscan, hagree.others.trans ?_, hagree.comments.trans ?_⟩
  · change (stream.tokens.flatMap Token.marks).filter _ = _
    rw [Token.filter_flatMap_marks]
    congr 1
    apply List.filter_congr
    intro token _
    by_cases hcomment : token.kind = .comment <;> simp [Token.mark, hcomment]
  · change (stream.tokens.flatMap Token.marks).filter _ = _
    rw [Token.filter_flatMap_marks]
    congr 1
    apply List.filter_congr
    intro token _
    by_cases hcomment : token.kind = .comment <;> simp [Token.mark, hcomment]

/-- Comments above and behind items and elements, between a sign and its value, before and
behind a comma, and at the ends of a list, an object and the document. -/
theorem parse_keeps_marks_commented : ∃ document,
    parse "# a\nb = /* c */ [1 /* d */, /* e */ 2, # f\n# g\n], # h\ni \"j\" \x7b # k\n\x7d # l\n" =
      .ok document ∧
    ∃ stream,
      TokenStream.scan
        "# a\nb = /* c */ [1 /* d */, /* e */ 2, # f\n# g\n], # h\ni \"j\" \x7b # k\n\x7d # l\n" =
        .ok stream ∧
      document.body.marks.filter (·.kind ≠ .comment) =
        (stream.tokens.filter fun token =>
          token.kind ≠ .comment ∧ token.kind ≠ .comma).map Token.mark ∧
      document.body.marks.filter (·.kind = .comment) =
        (stream.tokens.filter (·.kind = .comment)).map Token.mark := by
  obtain ⟨document, hparse, -⟩ := Except.exists_of_map
    (x := parse
      "# a\nb = /* c */ [1 /* d */, /* e */ 2, # f\n# g\n], # h\ni \"j\" \x7b # k\n\x7d # l\n")
    (p := fun _ => true) (by decide +kernel)
  exact ⟨document, hparse, parse_keeps_marks hparse⟩

end Document

end HclEditor
