import HclEditor.Document.Lexeme

/-!
# Assembling a document

A document is assembled from its tokens in one pass. The reading point stands in
unfinished containers: a body that waits for its next item, an item whose keys or value
are being read, a list. Around it lie the containers that wait for the value it is in.
Each token moves the reading point, or is the first that no document can have there.

The lists of an unfinished container hold what has been read newest first.
-/

namespace HclEditor

/-- Why a token cannot stand where it does. -/
inductive StructureFault where
  | expectedKey (found : TokenKind)
  | expectedAssignOrBlock (found : TokenKind)
  | expectedValue (found : TokenKind)
  | expectedSeparator (found : TokenKind)
  | unclosedObject
deriving DecidableEq, Repr

namespace StructureFault

/-- The wording of a structural fault. -/
def message : StructureFault → String
  | .expectedKey found => "expected item key, found " ++ found.describe
  | .expectedAssignOrBlock found => "expected '=' or '\x7b', found " ++ found.describe
  | .expectedValue found => "expected value, found " ++ found.describe
  | .expectedSeparator found => "expected ',' or ']', found " ++ found.describe
  | .unclosedObject => "expected '\x7d', found end of file"

end StructureFault

/-- A structural fault at its place. -/
structure StructureError where
  fault : StructureFault
  position : Position
deriving DecidableEq, Repr

/-- What may still belong to the last item of a body: a comma and then a comment, only a
comment, or nothing more. -/
inductive Trailing where
  | commaOrComment
  | comment
  | nothing
deriving DecidableEq, Repr

/-- A body that waits for its next item. `lead` are the comments that will stand above
it, `blankBefore` says whether an empty line precedes the first of them. -/
structure OpenBody where
  items : List Item := []
  lead : List String := []
  blankBefore : Bool := false
  trailing : Trailing := .nothing

/-- An item whose value has not been read. -/
structure OpenItem where
  keys : List Key
  lead : List String
  blankBefore : Bool
  start : Nat
  assigned : Bool := false

/-- A list that waits for an element, a comma or its end. `pending` are the comments that
belong to no element yet, `lastLine` is the line on which the last element ended. -/
structure OpenList where
  elements : List Element := []
  pending : List String := []
  lastLine : Nat := 0
  awaitsComma : Bool := false

mutual

/-- Where a body stands: it is the document's own, or the value of something. -/
inductive Site where
  | document
  | object (slot : Slot)

/-- Where a value stands: behind the keys of an item, or in a list. -/
inductive Slot where
  | item (site : Site) (body : OpenBody) (item : OpenItem)
  | element (slot : Slot) (list : OpenList)

end

/-- The reading point. -/
inductive ReadingPoint where
  | items (site : Site) (body : OpenBody)
  | keys (site : Site) (body : OpenBody) (item : OpenItem)
  | value (site : Site) (body : OpenBody) (item : OpenItem)
  | list (slot : Slot) (list : OpenList)

namespace OpenBody

/-- Whether an empty line precedes a token, the last one having ended on `lastLine`. -/
def blankLineBefore (lastLine : Nat) (token : Token) : Bool :=
  decide (0 < lastLine) && decide (lastLine + 1 < token.start.line)

/-- Whether an empty line precedes the next item, if `token` belongs to it. -/
def blankBeforeItem (body : OpenBody) (lastLine : Nat) (token : Token) : Bool :=
  if body.lead.isEmpty then blankLineBefore lastLine token else body.blankBefore

/-- Takes a comment above the next item. -/
def leadComment (body : OpenBody) (lastLine : Nat) (token : Token) : OpenBody :=
  { body with
    lead := token.text :: body.lead
    blankBefore := body.blankBeforeItem lastLine token
    trailing := .nothing }

/-- Takes a comment: behind the last item if that may still have one and it is on the
same line, otherwise above the next item. -/
def comment (body : OpenBody) (lastLine : Nat) (token : Token) : OpenBody :=
  match body.items with
  | item :: items =>
      if body.trailing ≠ .nothing ∧ token.start.line = lastLine then
        { body with
          items := { item with comments := { item.comments with line := some token.text } }
            :: items
          trailing := .nothing }
      else body.leadComment lastLine token
  | [] => body.leadComment lastLine token

/-- Starts the next item with its first key. -/
def startItem (body : OpenBody) (lastLine : Nat) (kind : KeyKind) (token : Token) :
    OpenItem where
  keys := [⟨kind, token.text⟩]
  lead := body.lead
  blankBefore := body.blankBeforeItem lastLine token
  start := token.start.offset

/-- The body with one more item. -/
def push (body : OpenBody) (item : Item) : OpenBody :=
  { items := item :: body.items, trailing := .commaOrComment }

/-- The body as it ends here; comments without an item below them dangle. -/
def close (body : OpenBody) : Body :=
  ⟨body.items.reverse, body.lead.reverse⟩

end OpenBody

namespace OpenItem

/-- The item with one more key. -/
def addKey (item : OpenItem) (kind : KeyKind) (token : Token) : OpenItem :=
  { item with keys := ⟨kind, token.text⟩ :: item.keys }

/-- The item with its value, which ends at the given offset. -/
def close (item : OpenItem) (value : Value) (stop : Nat) : Item where
  keys := item.keys.reverse
  value := value
  assigned := item.assigned
  comments := { lead := item.lead.reverse }
  blankBefore := item.blankBefore
  span := some ⟨item.start, stop⟩

end OpenItem

namespace OpenList

/-- Takes a comment: behind the last element if that has none and ended on the same
line, otherwise for the next element. -/
def comment (list : OpenList) (token : Token) : OpenList :=
  match list.elements with
  | element :: elements =>
      if token.start.line = list.lastLine ∧ element.comments.line = none then
        { list with
          elements :=
            { element with comments := { element.comments with line := some token.text } }
              :: elements }
      else { list with pending := token.text :: list.pending }
  | [] => { list with pending := token.text :: list.pending }

/-- The list with one more element, which ends on the given line. -/
def push (list : OpenList) (value : Value) (line : Nat) : OpenList where
  elements := ⟨value, { lead := list.pending.reverse }⟩ :: list.elements
  lastLine := line
  awaitsComma := true

/-- The list as it ends here; comments without an element below them dangle. -/
def close (list : OpenList) : ListBody :=
  ⟨list.elements.reverse, list.pending.reverse⟩

end OpenList

namespace Slot

/-- Puts a value, of which `token` is the last token, into its slot. -/
def fill (slot : Slot) (value : Value) (token : Token) : ReadingPoint :=
  match slot with
  | .item site body entry => .items site (body.push (entry.close value token.stop.offset))
  | .element slot elements => .list slot (elements.push value token.stop.line)

/-- Starts a value with its first token, which is all of it if it is a scalar. -/
def start (slot : Slot) (token : Token) : Except StructureFault ReadingPoint :=
  match token.kind with
  | .literal kind => .ok (slot.fill (.literal ⟨kind, token.text⟩) token)
  | .openBrace => .ok (.items (.object slot) {})
  | .openBracket => .ok (.list slot {})
  | kind => .error (.expectedValue kind)

end Slot

namespace ReadingPoint

/-- Moves the reading point over a token, the last one having ended on `lastLine`. -/
def step (lastLine : Nat) (token : Token) :
    ReadingPoint → Except StructureFault ReadingPoint
  | .items site body =>
      match token.kind with
      | .comment => .ok (.items site (body.comment lastLine token))
      | .comma =>
          if body.trailing = .commaOrComment then
            .ok (.items site { body with trailing := .comment })
          else .error (.expectedKey .comma)
      | .closeBrace =>
          match site with
          | .document => .error (.expectedKey .closeBrace)
          | .object slot => .ok (slot.fill (.object body.close) token)
      | kind =>
          match kind.keyKind? with
          | some keyKind => .ok (.keys site body (body.startItem lastLine keyKind token))
          | none => .error (.expectedKey kind)
  | .keys site body entry =>
      match token.kind with
      | .assign => .ok (.value site body { entry with assigned := true })
      | .openBrace => .ok (.items (.object (.item site body entry)) {})
      | kind =>
          match kind.keyKind? with
          | some keyKind => .ok (.keys site body (entry.addKey keyKind token))
          | none => .error (.expectedAssignOrBlock kind)
  | .value site body entry =>
      match token.kind with
      | .comment => .ok (.value site body { entry with lead := token.text :: entry.lead })
      | _ => (Slot.item site body entry).start token
  | .list slot elements =>
      match token.kind, elements.awaitsComma with
      | .closeBracket, _ => .ok (slot.fill (.list elements.close) token)
      | .comment, _ => .ok (.list slot (elements.comment token))
      | .comma, true => .ok (.list slot { elements with awaitsComma := false })
      | kind, true => .error (.expectedSeparator kind)
      | _, false => (Slot.element slot elements).start token

/-- The document's body, if the source may end here. -/
def finish : ReadingPoint → Except StructureFault Body
  | .items .document body => .ok body.close
  | .items (.object _) _ => .error .unclosedObject
  | .keys _ _ _ => .error (.expectedAssignOrBlock .ending)
  | .value _ _ _ => .error (.expectedValue .ending)
  | .list _ elements =>
      .error (if elements.awaitsComma then .expectedSeparator .ending else .expectedValue .ending)

end ReadingPoint

/-- The state of assembling: the reading point, and the line on which the last token
ended, zero before the first. -/
structure Assembly where
  point : ReadingPoint
  lastLine : Nat

namespace Assembly

/-- Nothing has been read. -/
def start : Assembly :=
  ⟨.items .document {}, 0⟩

/-- Takes one token. -/
def step (assembly : Assembly) (token : Token) : Except StructureError Assembly :=
  match assembly.point.step assembly.lastLine token with
  | .ok point => .ok ⟨point, token.stop.line⟩
  | .error fault => .error ⟨fault, token.start⟩

/-- Takes tokens in order. -/
def run (assembly : Assembly) (tokens : List Token) : Except StructureError Assembly :=
  tokens.foldlM step assembly

/-- Ends the source at the given position. -/
def finish (assembly : Assembly) (position : Position) : Except StructureError Body :=
  match assembly.point.finish with
  | .ok body => .ok body
  | .error fault => .error ⟨fault, position⟩

end Assembly

namespace TokenStream

/-- The body that the tokens make up. -/
def assemble (stream : TokenStream) : Except StructureError Body := do
  (← Assembly.start.run stream.tokens).finish stream.stop

end TokenStream

/-- Why a source is not a document. -/
inductive ReadError where
  | lexical (error : LexicalError)
  | structural (error : StructureError)
deriving DecidableEq, Repr

namespace ReadError

/-- The error in words, from the general to the particular. -/
def causes : ReadError → List String
  | .lexical error =>
      ["Failed to tokenize HCL", error.position.describe error.fault.message]
  | .structural error =>
      ["Failed to parse HCL", error.position.describe error.fault.message]

end ReadError

namespace Document

/-- Reads a document from its source. -/
def parse (source : String) : Except ReadError Document := do
  let stream ← (TokenStream.scan source).mapError .lexical
  let body ← stream.assemble.mapError .structural
  return { body, source := some source }

end Document

end HclEditor
