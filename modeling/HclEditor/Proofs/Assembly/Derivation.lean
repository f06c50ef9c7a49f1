import Mathlib
import HclEditor.Proofs.Assembly.Reader
import HclEditor.Proofs.Assembly.Soundness

/-!
# What is read from which tokens

A document is read token by token, but each value in it is read from a row of tokens of its
own, and so is every item. The relations below say from which, without reading points and the
slots that values are put in. What stands around a value has no part in them.
-/

namespace HclEditor

/-- The tokens open an item of the body, the token in front of them having ended on `lastLine`:
they are its keys, and its sign with the comments behind that. -/
inductive OpenBody.Opens (body : OpenBody) (lastLine : Nat) : List Token → OpenItem → Prop where
  | first {token : Token} {kind : KeyKind} (hkey : token.kind.keyKind? = some kind) :
      Opens body lastLine [token] (body.startItem lastLine kind token)
  | key {tokens : List Token} {entry : OpenItem} {token : Token} {kind : KeyKind}
      (hopens : Opens body lastLine tokens entry) (hassigned : entry.assigned = false)
      (hkey : token.kind.keyKind? = some kind) :
      Opens body lastLine (tokens ++ [token]) (entry.addKey kind token)
  | assign {tokens : List Token} {entry : OpenItem} {token : Token}
      (hopens : Opens body lastLine tokens entry) (hassigned : entry.assigned = false)
      (hkind : token.kind = .assign) :
      Opens body lastLine (tokens ++ [token]) { entry with assigned := true }
  | comment {tokens : List Token} {entry : OpenItem} {token : Token}
      (hopens : Opens body lastLine tokens entry) (hassigned : entry.assigned = true)
      (hkind : token.kind = .comment) :
      Opens body lastLine (tokens ++ [token]) { entry with lead := token.text :: entry.lead }

mutual

/-- The value is read from these tokens and the last one behind them. -/
inductive Value.ReadFrom : List Token → Token → Value → Prop where
  | literal {token : Token} {kind : LiteralKind} (hkind : token.kind = .literal kind) :
      Value.ReadFrom [] token (.literal ⟨kind, token.text⟩)
  | object {opening closing : Token} {tokens : List Token} {body : OpenBody} {lastLine : Nat}
      (hopening : opening.kind = .openBrace)
      (hbody : OpenBody.ReadFrom opening.stop.line tokens body lastLine)
      (hclosing : closing.kind = .closeBrace) :
      Value.ReadFrom (opening :: tokens) closing (.object body.close)
  | list {opening closing : Token} {tokens : List Token} {list : OpenList}
      (hopening : opening.kind = .openBracket) (hlist : OpenList.ReadFrom tokens list)
      (hclosing : closing.kind = .closeBracket) :
      Value.ReadFrom (opening :: tokens) closing (.list list.close)

/-- Behind a token that ended on `line` the body is read from these tokens, the last of which
ended on `lastLine`. -/
inductive OpenBody.ReadFrom : Nat → List Token → OpenBody → Nat → Prop where
  | nil (line : Nat) : OpenBody.ReadFrom line [] {} line
  | comment {line lastLine : Nat} {tokens : List Token} {body : OpenBody} {token : Token}
      (hbody : OpenBody.ReadFrom line tokens body lastLine) (hkind : token.kind = .comment) :
      OpenBody.ReadFrom line (tokens ++ [token]) (body.comment lastLine token) token.stop.line
  | comma {line lastLine : Nat} {tokens : List Token} {body : OpenBody} {token : Token}
      (hbody : OpenBody.ReadFrom line tokens body lastLine) (hkind : token.kind = .comma)
      (htrailing : body.trailing = .commaOrComment) :
      OpenBody.ReadFrom line (tokens ++ [token]) { body with trailing := .comment }
        token.stop.line
  | item {line lastLine : Nat} {tokens head own : List Token} {body : OpenBody}
      {entry : OpenItem} {last : Token} {value : Value}
      (hbody : OpenBody.ReadFrom line tokens body lastLine)
      (hopens : body.Opens lastLine head entry) (hvalue : Value.ReadFrom own last value)
      (htakes : entry.assigned = true ∨ value.isObject = true) :
      OpenBody.ReadFrom line (tokens ++ (head ++ own ++ [last]))
        (body.push (entry.close value last.stop.offset)) last.stop.line

/-- The list is read from these tokens behind its opening bracket. -/
inductive OpenList.ReadFrom : List Token → OpenList → Prop where
  | nil : OpenList.ReadFrom [] {}
  | comment {tokens : List Token} {list : OpenList} {token : Token}
      (hlist : OpenList.ReadFrom tokens list) (hkind : token.kind = .comment) :
      OpenList.ReadFrom (tokens ++ [token]) (list.comment token)
  | comma {tokens : List Token} {list : OpenList} {token : Token}
      (hlist : OpenList.ReadFrom tokens list) (hkind : token.kind = .comma)
      (hawaits : list.awaitsComma = true) :
      OpenList.ReadFrom (tokens ++ [token]) { list with awaitsComma := false }
  | element {tokens own : List Token} {list : OpenList} {last : Token} {value : Value}
      (hlist : OpenList.ReadFrom tokens list) (hawaits : list.awaitsComma = false)
      (hvalue : Value.ReadFrom own last value) :
      OpenList.ReadFrom (tokens ++ (own ++ [last])) (list.push value last.stop.line)

end

section Induction

-- Of the values in a body or a list only their own tokens and what is read from these matter
-- here, so the induction is on the container alone.

@[elab_as_elim]
theorem OpenBody.ReadFrom.induction {line : Nat}
    {motive : ∀ tokens body lastLine, OpenBody.ReadFrom line tokens body lastLine → Prop}
    (nil : motive [] {} line (.nil line))
    (comment : ∀ {tokens body lastLine} {token : Token} (hbody : ReadFrom line tokens body lastLine)
      (hkind : token.kind = .comment), motive tokens body lastLine hbody →
        motive _ _ _ (hbody.comment hkind))
    (comma : ∀ {tokens body lastLine} {token : Token} (hbody : ReadFrom line tokens body lastLine)
      (hkind : token.kind = .comma) (htrailing : body.trailing = .commaOrComment),
        motive tokens body lastLine hbody → motive _ _ _ (hbody.comma hkind htrailing))
    (item : ∀ {tokens body lastLine head entry own} {last : Token} {value : Value}
      (hbody : ReadFrom line tokens body lastLine) (hopens : body.Opens lastLine head entry)
      (hvalue : Value.ReadFrom own last value)
      (htakes : entry.assigned = true ∨ value.isObject = true),
        motive tokens body lastLine hbody → motive _ _ _ (hbody.item hopens hvalue htakes))
    {tokens : List Token} {body : OpenBody} {lastLine : Nat}
    (hbody : OpenBody.ReadFrom line tokens body lastLine) :
    motive tokens body lastLine hbody := by
  induction hsize : tokens.length using Nat.strong_induction_on
    generalizing tokens body lastLine with
  | _ size ih =>
      cases hbody with
      | nil => exact nil
      | comment hbody hkind => exact comment hbody hkind (ih _ (by simp [← hsize]) hbody rfl)
      | comma hbody hkind htrailing =>
          exact comma hbody hkind htrailing (ih _ (by simp [← hsize]) hbody rfl)
      | item hbody hopens hvalue htakes =>
          exact item hbody hopens hvalue htakes (ih _ (by simp [← hsize]) hbody rfl)

@[elab_as_elim]
theorem OpenList.ReadFrom.induction
    {motive : ∀ tokens list, OpenList.ReadFrom tokens list → Prop}
    (nil : motive [] {} .nil)
    (comment : ∀ {tokens list} {token : Token} (hlist : ReadFrom tokens list)
      (hkind : token.kind = .comment), motive tokens list hlist →
        motive _ _ (hlist.comment hkind))
    (comma : ∀ {tokens list} {token : Token} (hlist : ReadFrom tokens list)
      (hkind : token.kind = .comma) (hawaits : list.awaitsComma = true), motive tokens list hlist →
        motive _ _ (hlist.comma hkind hawaits))
    (element : ∀ {tokens list own} {last : Token} {value : Value} (hlist : ReadFrom tokens list)
      (hawaits : list.awaitsComma = false) (hvalue : Value.ReadFrom own last value),
        motive tokens list hlist → motive _ _ (hlist.element hawaits hvalue))
    {tokens : List Token} {list : OpenList} (hlist : OpenList.ReadFrom tokens list) :
    motive tokens list hlist := by
  induction hsize : tokens.length using Nat.strong_induction_on generalizing tokens list with
  | _ size ih =>
      cases hlist with
      | nil => exact nil
      | comment hlist hkind => exact comment hlist hkind (ih _ (by simp [← hsize]) hlist rfl)
      | comma hlist hkind hawaits =>
          exact comma hlist hkind hawaits (ih _ (by simp [← hsize]) hlist rfl)
      | element hlist hawaits hvalue =>
          exact element hlist hawaits hvalue (ih _ (by simp [← hsize]) hlist rfl)

end Induction

/-- The list is read from the end of these tokens, the opening bracket included, and `Front`
holds of those in front of it. -/
def OpenList.ReadBehind (Front : List Token → Prop) (tokens : List Token) (list : OpenList) :
    Prop :=
  ∃ before opening inside, tokens = before ++ opening :: inside ∧ Front before ∧
    opening.kind = .openBracket ∧ list.ReadFrom inside

mutual

/-- All that stands around the body is read from these tokens, the last of which ended on
`line`. -/
def Site.ReadFrom (tokens : List Token) (line : Nat) : Site → Prop
  | .document => tokens = [] ∧ line = 0
  | .object slot => ∃ before opening, tokens = before ++ [opening] ∧ slot.ReadFrom before ∧
      opening.kind = .openBrace ∧ line = opening.stop.line

/-- All that stands in front of the value is read from these tokens. -/
def Slot.ReadFrom (tokens : List Token) : Slot → Prop
  | .item site body entry => ∃ before inside head line lastLine,
      tokens = before ++ (inside ++ head) ∧ site.ReadFrom before line ∧
        OpenBody.ReadFrom line inside body lastLine ∧ body.Opens lastLine head entry
  | .element slot list => list.ReadBehind (fun before => slot.ReadFrom before) tokens ∧
      slot.TakesAny ∧ list.awaitsComma = false

end

/-- All that has been read is read from these tokens, the last of which ended on `lastLine`. -/
def ReadingPoint.ReadFrom (tokens : List Token) (lastLine : Nat) : ReadingPoint → Prop
  | .items site body => ∃ before inside line, tokens = before ++ inside ∧
      site.ReadFrom before line ∧ OpenBody.ReadFrom line inside body lastLine
  | .keys site body entry => (Slot.item site body entry).ReadFrom tokens ∧ entry.assigned = false
  | .value site body entry => (Slot.item site body entry).ReadFrom tokens ∧ entry.assigned = true
  | .list slot elements => elements.ReadBehind slot.ReadFrom tokens ∧ slot.TakesAny

namespace Slot.ReadFrom

variable {slot : Slot} {tokens : List Token} (hslot : slot.ReadFrom tokens)
include hslot

/-- A value that is put in its slot is read from its own tokens behind the others. -/
theorem fill {own : List Token} {last : Token} {value : Value}
    (hvalue : Value.ReadFrom own last value) (htakes : slot.TakesAny ∨ value.isObject = true) :
    (slot.fill value last).ReadFrom (tokens ++ (own ++ [last])) last.stop.line := by
  cases slot with
  | item site body entry =>
      obtain ⟨before, inside, head, line, lastLine, rfl, hsite, hbody, hopens⟩ := hslot
      exact ⟨before, _, line, by simp, hsite, hbody.item hopens hvalue htakes⟩
  | element slot list =>
      obtain ⟨⟨before, opening, inside, rfl, hslot, hopening, hlist⟩, hany, hawaits⟩ := hslot
      exact ⟨⟨before, opening, _, by simp, hslot, hopening, hlist.element hawaits hvalue⟩, hany⟩

theorem start (htakes : slot.TakesAny) {token : Token} {next : ReadingPoint}
    (hstarts : slot.Starts token next) :
    next.ReadFrom (tokens ++ [token]) token.stop.line := by
  cases hstarts with
  | scalar hkind => exact hslot.fill (.literal hkind) (.inl htakes)
  | object hkind =>
      exact ⟨_, [], token.stop.line, by simp, ⟨tokens, token, rfl, hslot, hkind, rfl⟩, .nil _⟩
  | list hkind => exact ⟨⟨tokens, token, [], rfl, hslot, hkind, .nil⟩, htakes⟩

end Slot.ReadFrom

/-- A token adds itself to those that all is read from. -/
theorem ReadingPoint.ReadFrom.step {point next : ReadingPoint} {tokens : List Token}
    {lastLine : Nat} (hpoint : point.ReadFrom tokens lastLine) {token : Token}
    (hstep : point.step lastLine token = .ok next) :
    next.ReadFrom (tokens ++ [token]) token.stop.line := by
  cases advances_of_step hstep with
  | comment hkind =>
      obtain ⟨before, inside, line, rfl, hsite, hbody⟩ := hpoint
      exact ⟨before, _, line, by simp, hsite, hbody.comment hkind⟩
  | comma hkind htrailing =>
      obtain ⟨before, inside, line, rfl, hsite, hbody⟩ := hpoint
      exact ⟨before, _, line, by simp, hsite, hbody.comma hkind htrailing⟩
  | closeObject hkind =>
      obtain ⟨-, inside, line, rfl, ⟨before, opening, rfl, hslot, hopening, rfl⟩, hbody⟩ := hpoint
      have hfill := hslot.fill (.object hopening hbody hkind) (.inr rfl)
      simpa using hfill
  | firstKey hkey =>
      obtain ⟨before, inside, line, rfl, hsite, hbody⟩ := hpoint
      exact ⟨⟨before, inside, _, line, lastLine, by simp, hsite, hbody, .first hkey⟩, rfl⟩
  | nextKey hkey =>
      obtain ⟨⟨before, inside, head, line, lastLine, rfl, hsite, hbody, hopens⟩, hassigned⟩ :=
        hpoint
      exact ⟨⟨before, inside, _, line, lastLine, by simp, hsite, hbody,
        hopens.key hassigned hkey⟩, hassigned⟩
  | assign hkind =>
      obtain ⟨⟨before, inside, head, line, lastLine, rfl, hsite, hbody, hopens⟩, hassigned⟩ :=
        hpoint
      exact ⟨⟨before, inside, _, line, lastLine, by simp, hsite, hbody,
        hopens.assign hassigned hkind⟩, rfl⟩
  | block hkind =>
      exact ⟨_, [], token.stop.line, by simp, ⟨tokens, token, rfl, hpoint.1, hkind, rfl⟩, .nil _⟩
  | valueComment hkind =>
      obtain ⟨⟨before, inside, head, line, lastLine, rfl, hsite, hbody, hopens⟩, hassigned⟩ :=
        hpoint
      exact ⟨⟨before, inside, _, line, lastLine, by simp, hsite, hbody,
        hopens.comment hassigned hkind⟩, hassigned⟩
  | value hstarts => exact hpoint.1.start hpoint.2 hstarts
  | listComment hkind =>
      obtain ⟨⟨before, opening, inside, rfl, hslot, hopening, hlist⟩, hany⟩ := hpoint
      exact ⟨⟨before, opening, _, by simp, hslot, hopening, hlist.comment hkind⟩, hany⟩
  | listComma hkind hawaits =>
      obtain ⟨⟨before, opening, inside, rfl, hslot, hopening, hlist⟩, hany⟩ := hpoint
      exact ⟨⟨before, opening, _, by simp, hslot, hopening, hlist.comma hkind hawaits⟩, hany⟩
  | closeList hkind =>
      obtain ⟨⟨before, opening, inside, rfl, hslot, hopening, hlist⟩, hany⟩ := hpoint
      have hfill := Slot.ReadFrom.fill hslot (.list hopening hlist hkind) (.inl hany)
      simpa using hfill
  | @element slot elements _ hawaits hstarts =>
      have helement : (Slot.element slot elements).ReadFrom tokens :=
        ⟨hpoint.1, hpoint.2, hawaits⟩
      exact helement.start trivial hstarts

/-- What is assembled is read from the tokens. -/
theorem Assembly.readFrom_of_run {assembly after : Assembly} {before tokens : List Token}
    (hpoint : assembly.point.ReadFrom before assembly.lastLine)
    (hrun : assembly.run tokens = .ok after) :
    after.point.ReadFrom (before ++ tokens) after.lastLine := by
  induction tokens generalizing assembly before with
  | nil =>
      cases hrun
      rwa [List.append_nil]
  | cons token tokens ih =>
      obtain ⟨next, hstep, hnext⟩ := run_cons_eq_ok.mp hrun
      have hall := ih (hpoint.step hstep) hnext
      rwa [List.append_assoc] at hall

/-- Behind no token at all, a body that tokens lead to is read from them. -/
theorem OpenBody.readFrom_of_run {tokens : List Token} {body : OpenBody} {lastLine : Nat}
    (hrun : Assembly.start.run tokens = .ok ⟨.items .document body, lastLine⟩) :
    OpenBody.ReadFrom 0 tokens body lastLine := by
  have hstart : Assembly.start.point.ReadFrom [] Assembly.start.lastLine :=
    ⟨[], [], 0, rfl, ⟨rfl, rfl⟩, .nil 0⟩
  obtain ⟨-, inside, -, htokens, ⟨rfl, rfl⟩, hbody⟩ := Assembly.readFrom_of_run hstart hrun
  rw [List.nil_append, List.nil_append] at htokens
  rwa [htokens]

namespace Assembly

theorem run_append_eq_ok {assembly after : Assembly} {first second : List Token} :
    assembly.run (first ++ second) = .ok after ↔
      ∃ middle, assembly.run first = .ok middle ∧ middle.run second = .ok after := by
  rw [run_append]
  exact Except.bind_eq_ok

theorem run_concat {assembly : Assembly} {tokens : List Token} {point next : ReadingPoint}
    {lastLine : Nat} (hrun : assembly.run tokens = .ok ⟨point, lastLine⟩) {token : Token}
    (hstep : point.step lastLine token = .ok next) :
    assembly.run (tokens ++ [token]) = .ok ⟨next, token.stop.line⟩ :=
  run_append_eq_ok.mpr ⟨_, hrun, run_cons_eq_ok.mpr ⟨next, hstep, rfl⟩⟩

end Assembly

namespace OpenItem

/-- The reading point behind what there is of the item. -/
def point (site : Site) (body : OpenBody) (entry : OpenItem) : ReadingPoint :=
  if entry.assigned then .value site body entry else .keys site body entry

theorem awaitsValue_point (site : Site) (body : OpenBody) {entry : OpenItem} {value : Value}
    (htakes : entry.assigned = true ∨ value.isObject = true) :
    (entry.point site body).AwaitsValue (.item site body entry) value.startKind := by
  rw [point]
  split
  next => exact value.awaitsValue_of_value site body entry
  next hassigned => exact Value.awaitsValue_of_keys (htakes.resolve_left hassigned) site body entry

end OpenItem

/-- The tokens that open an item lead to where its value is awaited. -/
theorem OpenBody.Opens.run {body : OpenBody} {lastLine : Nat} {tokens : List Token}
    {entry : OpenItem} (hopens : body.Opens lastLine tokens entry) (site : Site) :
    ∃ line, Assembly.run ⟨.items site body, lastLine⟩ tokens =
      .ok ⟨entry.point site body, line⟩ := by
  induction hopens with
  | @first token kind hkey =>
      refine ⟨_, Assembly.run_cons_eq_ok.mpr ⟨_, ?_, rfl⟩⟩
      have hkind := TokenKind.eq_of_keyKind? hkey
      cases kind <;> simp [ReadingPoint.step, hkind, KeyKind.tokenKind, TokenKind.keyKind?,
        OpenItem.point, startItem]
  | @key tokens entry token kind _ hassigned hkey ih =>
      obtain ⟨line, hrun⟩ := ih
      have hkind := TokenKind.eq_of_keyKind? hkey
      rw [OpenItem.point, if_neg (by simp [hassigned])] at hrun
      refine ⟨_, Assembly.run_concat hrun ?_⟩
      cases kind <;> simp [ReadingPoint.step, hkind, KeyKind.tokenKind, TokenKind.keyKind?,
        OpenItem.point, OpenItem.addKey, hassigned]
  | assign _ hassigned hkind ih =>
      obtain ⟨line, hrun⟩ := ih
      rw [OpenItem.point, if_neg (by simp [hassigned])] at hrun
      exact ⟨_, Assembly.run_concat hrun (by simp [ReadingPoint.step, hkind, OpenItem.point])⟩
  | comment _ hassigned hkind ih =>
      obtain ⟨line, hrun⟩ := ih
      rw [OpenItem.point, if_pos hassigned] at hrun
      exact ⟨_, Assembly.run_concat hrun
        (by simp [ReadingPoint.step, hkind, OpenItem.point, hassigned])⟩

mutual

/-- The tokens that a value is read from are read as this value wherever one is awaited. -/
theorem Value.ReadFrom.run {own : List Token} {last : Token} {value : Value}
    (hvalue : Value.ReadFrom own last value) {point : ReadingPoint} {slot : Slot}
    (hawaits : point.AwaitsValue slot value.startKind) (lastLine : Nat) :
    Assembly.run ⟨point, lastLine⟩ (own ++ [last]) =
      .ok ⟨slot.fill value last, last.stop.line⟩ := by
  cases hvalue with
  | literal hkind =>
      refine Assembly.run_cons_eq_ok.mpr ⟨_, ?_, rfl⟩
      rw [hawaits _ _ hkind, Slot.start, hkind]
  | @object opening _ tokens body _ hopening hbody hclosing =>
      have hstep : point.step lastLine opening = .ok (.items (.object slot) {}) := by
        rw [hawaits _ _ hopening, Slot.start, hopening]
      exact Assembly.run_cons_eq_ok.mpr ⟨_, hstep, Assembly.run_concat
        (hbody.run (.object slot)) (by simp [ReadingPoint.step, hclosing])⟩
  | @list opening _ tokens list hopening hlist hclosing =>
      have hstep : point.step lastLine opening = .ok (.list slot {}) := by
        rw [hawaits _ _ hopening, Slot.start, hopening]
      obtain ⟨line, hrun⟩ := hlist.run slot opening.stop.line
      exact Assembly.run_cons_eq_ok.mpr ⟨_, hstep, Assembly.run_concat hrun
        (by simp [ReadingPoint.step, hclosing])⟩
termination_by own.length
decreasing_by all_goals subst_vars; simp only [List.length_cons]; omega

/-- The tokens that a body is read from lead to this body wherever it stands. -/
theorem OpenBody.ReadFrom.run {line lastLine : Nat} {tokens : List Token} {body : OpenBody}
    (hbody : OpenBody.ReadFrom line tokens body lastLine) (site : Site) :
    Assembly.run ⟨.items site {}, line⟩ tokens = .ok ⟨.items site body, lastLine⟩ := by
  cases hbody with
  | nil => rfl
  | comment hbody hkind =>
      exact Assembly.run_concat (hbody.run site) (by simp [ReadingPoint.step, hkind])
  | comma hbody hkind htrailing =>
      exact Assembly.run_concat (hbody.run site) (by simp [ReadingPoint.step, hkind, htrailing])
  | item hbody hopens hvalue htakes =>
      obtain ⟨line, hhead⟩ := hopens.run site
      rw [List.append_assoc]
      exact Assembly.run_append_eq_ok.mpr ⟨_, hbody.run site, Assembly.run_append_eq_ok.mpr
        ⟨_, hhead, hvalue.run (OpenItem.awaitsValue_point site _ htakes) line⟩⟩
termination_by tokens.length
decreasing_by all_goals simp only [List.length_append, List.length_singleton]; omega

/-- The tokens that a list is read from lead to this list wherever it stands. -/
theorem OpenList.ReadFrom.run {tokens : List Token} {list : OpenList}
    (hlist : list.ReadFrom tokens) (slot : Slot) (line : Nat) :
    ∃ lastLine, Assembly.run ⟨.list slot {}, line⟩ tokens = .ok ⟨.list slot list, lastLine⟩ := by
  cases hlist with
  | nil => exact ⟨line, rfl⟩
  | comment hlist hkind =>
      obtain ⟨lastLine, hrun⟩ := hlist.run slot line
      exact ⟨_, Assembly.run_concat hrun (by simp [ReadingPoint.step, hkind])⟩
  | comma hlist hkind hawaits =>
      obtain ⟨lastLine, hrun⟩ := hlist.run slot line
      exact ⟨_, Assembly.run_concat hrun (by simp [ReadingPoint.step, hkind, hawaits])⟩
  | element hlist hawaits hvalue =>
      obtain ⟨lastLine, hrun⟩ := hlist.run slot line
      exact ⟨_, Assembly.run_append_eq_ok.mpr ⟨_, hrun,
        hvalue.run (Value.awaitsValue_of_list _ slot _ hawaits) lastLine⟩⟩
termination_by tokens.length
decreasing_by all_goals simp only [List.length_append, List.length_singleton]; omega

end

end HclEditor
