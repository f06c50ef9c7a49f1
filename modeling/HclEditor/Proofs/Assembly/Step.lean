import HclEditor.Document.Assembly

/-!
# What a token does

The ways in which a token can move the reading point, one for each place where it may stand,
and the places where a value may start.
-/

namespace HclEditor

/-- How the first token of a value moves the reading point. -/
inductive Slot.Starts (slot : Slot) (token : Token) : ReadingPoint → Prop where
  | scalar {kind : LiteralKind} (hkind : token.kind = .literal kind) :
      Starts slot token (slot.fill (.literal ⟨kind, token.text⟩) token)
  | object (hkind : token.kind = .openBrace) : Starts slot token (.items (.object slot) {})
  | list (hkind : token.kind = .openBracket) : Starts slot token (.list slot {})

theorem Slot.starts_of_start {slot : Slot} {token : Token} {next : ReadingPoint}
    (hstart : slot.start token = .ok next) : slot.Starts token next := by
  unfold start at hstart
  split at hstart <;> cases hstart
  next hkind => exact .scalar hkind
  next hkind => exact .object hkind
  next hkind => exact .list hkind

/-- How a token moves the reading point, the last one having ended on `lastLine`. -/
inductive ReadingPoint.Advances (lastLine : Nat) (token : Token) :
    ReadingPoint → ReadingPoint → Prop where
  | comment {site : Site} {body : OpenBody} (hkind : token.kind = .comment) :
      Advances lastLine token (.items site body) (.items site (body.comment lastLine token))
  | comma {site : Site} {body : OpenBody} (hkind : token.kind = .comma)
      (htrailing : body.trailing = .commaOrComment) :
      Advances lastLine token (.items site body) (.items site { body with trailing := .comment })
  | closeObject {slot : Slot} {body : OpenBody} (hkind : token.kind = .closeBrace) :
      Advances lastLine token (.items (.object slot) body) (slot.fill (.object body.close) token)
  | firstKey {site : Site} {body : OpenBody} {kind : KeyKind}
      (hkey : token.kind.keyKind? = some kind) :
      Advances lastLine token (.items site body)
        (.keys site body (body.startItem lastLine kind token))
  | nextKey {site : Site} {body : OpenBody} {entry : OpenItem} {kind : KeyKind}
      (hkey : token.kind.keyKind? = some kind) :
      Advances lastLine token (.keys site body entry) (.keys site body (entry.addKey kind token))
  | assign {site : Site} {body : OpenBody} {entry : OpenItem} (hkind : token.kind = .assign) :
      Advances lastLine token (.keys site body entry)
        (.value site body { entry with assigned := true })
  | block {site : Site} {body : OpenBody} {entry : OpenItem} (hkind : token.kind = .openBrace) :
      Advances lastLine token (.keys site body entry)
        (.items (.object (.item site body entry)) {})
  | valueComment {site : Site} {body : OpenBody} {entry : OpenItem}
      (hkind : token.kind = .comment) :
      Advances lastLine token (.value site body entry)
        (.value site body { entry with lead := token.text :: entry.lead })
  | value {site : Site} {body : OpenBody} {entry : OpenItem} {next : ReadingPoint}
      (hstarts : (Slot.item site body entry).Starts token next) :
      Advances lastLine token (.value site body entry) next
  | listComment {slot : Slot} {elements : OpenList} (hkind : token.kind = .comment) :
      Advances lastLine token (.list slot elements) (.list slot (elements.comment token))
  | listComma {slot : Slot} {elements : OpenList} (hkind : token.kind = .comma)
      (hawaits : elements.awaitsComma = true) :
      Advances lastLine token (.list slot elements)
        (.list slot { elements with awaitsComma := false })
  | closeList {slot : Slot} {elements : OpenList} (hkind : token.kind = .closeBracket) :
      Advances lastLine token (.list slot elements) (slot.fill (.list elements.close) token)
  | element {slot : Slot} {elements : OpenList} {next : ReadingPoint}
      (hawaits : elements.awaitsComma = false)
      (hstarts : (Slot.element slot elements).Starts token next) :
      Advances lastLine token (.list slot elements) next

theorem ReadingPoint.advances_of_step {point next : ReadingPoint} {lastLine : Nat}
    {token : Token} (hstep : point.step lastLine token = .ok next) :
    point.Advances lastLine token next := by
  cases point with
  | items site body =>
      simp only [step] at hstep
      split at hstep
      next hkind =>
        cases hstep
        exact .comment hkind
      next hkind =>
        split at hstep <;> cases hstep
        next htrailing => exact .comma hkind htrailing
      next hkind =>
        split at hstep <;> cases hstep
        exact .closeObject hkind
      next =>
        split at hstep <;> cases hstep
        next hkey => exact .firstKey hkey
  | keys site body entry =>
      simp only [step] at hstep
      split at hstep
      next hkind =>
        cases hstep
        exact .assign hkind
      next hkind =>
        cases hstep
        exact .block hkind
      next =>
        split at hstep <;> cases hstep
        next hkey => exact .nextKey hkey
  | value site body entry =>
      simp only [step] at hstep
      split at hstep
      next hkind =>
        cases hstep
        exact .valueComment hkind
      next => exact .value (Slot.starts_of_start hstep)
  | list slot elements =>
      simp only [step] at hstep
      split at hstep
      next hkind =>
        cases hstep
        exact .closeList hkind
      next hkind =>
        cases hstep
        exact .listComment hkind
      next hkind hawaits =>
        cases hstep
        exact .listComma hkind hawaits
      next => cases hstep
      next hawaits _ _ => exact .element hawaits (Slot.starts_of_start hstep)

theorem OpenBody.trailing_comment (body : OpenBody) (lastLine : Nat) (token : Token) :
    (body.comment lastLine token).trailing = .nothing := by
  unfold comment
  split
  · split <;> rfl
  · rfl

namespace ReadingPoint

/-- A token of this kind is taken as the start of the slot's value. -/
def AwaitsValue (point : ReadingPoint) (slot : Slot) (kind : TokenKind) : Prop :=
  ∀ lastLine token, token.kind = kind → point.step lastLine token = slot.start token

end ReadingPoint

namespace Value

/-- The kind of the value's first token. -/
def startKind : Value → TokenKind
  | .literal scalar => .literal scalar.kind
  | .object _ => .openBrace
  | .list _ => .openBracket

theorem awaitsValue_of_value (value : Value) (site : Site) (body : OpenBody) (item : OpenItem) :
    (ReadingPoint.value site body item).AwaitsValue (.item site body item) value.startKind := by
  intro lastLine token hkind
  cases value <;> rw [startKind] at hkind <;> simp [ReadingPoint.step, hkind]

theorem awaitsValue_of_keys {value : Value} (hobject : value.isObject = true) (site : Site)
    (body : OpenBody) (item : OpenItem) :
    (ReadingPoint.keys site body item).AwaitsValue (.item site body item) value.startKind := by
  intro lastLine token hkind
  cases value with
  | object inner =>
      rw [startKind] at hkind
      simp [ReadingPoint.step, Slot.start, hkind]
  | _ => cases hobject

theorem awaitsValue_of_list (value : Value) (slot : Slot) (list : OpenList)
    (hcomma : list.awaitsComma = false) :
    (ReadingPoint.list slot list).AwaitsValue (.element slot list) value.startKind := by
  intro lastLine token hkind
  cases value <;> rw [startKind] at hkind <;> simp [ReadingPoint.step, hkind, hcomma]

end Value

end HclEditor
