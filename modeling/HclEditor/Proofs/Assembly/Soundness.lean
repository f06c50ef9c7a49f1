import Mathlib
import HclEditor.Proofs.Assembly.Step
import HclEditor.Proofs.Document.Parts
import HclEditor.Proofs.Outcome

/-!
# Documents are made of their tokens

Whatever is assembled from the tokens of a source is sound: its keys, literals and
comments are spelled as tokens, its items have keys, and those without `=` hold an object.
The reading point is sound when everything that has been read around it is.
-/

namespace HclEditor

namespace Token

/-- A token is spelled by its text. A comment may owe its end to a carriage return behind
it. -/
def Sound (token : Token) : Prop :=
  token.kind.Reads token.text (if token.kind = .comment then ['\r'] else [])

end Token

theorem TokenStream.sound_of_scan {source : String} {stream : TokenStream}
    (hscan : TokenStream.scan source = .ok stream) : ∀ token ∈ stream.tokens, token.Sound := by
  intro token htoken
  obtain ⟨before, rest, -, hreads, -⟩ := TokenStream.reads_of_scanFrom hscan htoken
  refine hreads.of_endsBefore ?_
  cases token.kind with
  | comment => exact .inr ⟨[], rfl, Lexeme.startsIn_nil _⟩
  | literal kind => cases kind <;> first | trivial | exact Lexeme.startsIn_nil _
  | identifier => exact Lexeme.startsIn_nil _
  | _ => trivial

theorem TokenKind.eq_of_keyKind? {kind : TokenKind} {keyKind : KeyKind}
    (hkind : kind.keyKind? = some keyKind) : kind = keyKind.tokenKind := by
  unfold keyKind? at hkind
  split at hkind <;> cases hkind <;> rfl

namespace Token.Sound

variable {token : Token} (htoken : token.Sound)
include htoken

theorem comment (hkind : token.kind = .comment) : (Part.comment token.text).Sound := by
  rwa [Sound, hkind, if_pos rfl] at htoken

theorem literal {kind : LiteralKind} (hkind : token.kind = .literal kind) :
    (Part.literal ⟨kind, token.text⟩).Sound := by
  rw [Sound, hkind] at htoken
  exact TokenKind.spells_iff_reads.mpr htoken

theorem key {kind : KeyKind} (hkind : token.kind.keyKind? = some kind) :
    (Part.key ⟨kind, token.text⟩).Sound := by
  have hspells := TokenKind.eq_of_keyKind? hkind
  rw [Sound, hspells] at htoken
  refine TokenKind.spells_iff_reads.mpr ?_
  cases kind <;> exact htoken

end Token.Sound

namespace OpenBody

/-- The items and comments that have been read are sound. -/
structure Sound (body : OpenBody) : Prop where
  items : ∀ item ∈ body.items, ∀ part ∈ item.parts, part.Sound
  lead : ∀ text ∈ body.lead, (Part.comment text).Sound

end OpenBody

namespace OpenItem

/-- The keys and comments that have been read are sound, and there is a key. -/
structure Sound (item : OpenItem) : Prop where
  nonempty : item.keys ≠ []
  keys : ∀ key ∈ item.keys, (Part.key key).Sound
  lead : ∀ text ∈ item.lead, (Part.comment text).Sound

end OpenItem

namespace OpenList

/-- The elements and comments that have been read are sound. -/
structure Sound (list : OpenList) : Prop where
  elements : ∀ element ∈ list.elements, ∀ part ∈ element.parts, part.Sound
  pending : ∀ text ∈ list.pending, (Part.comment text).Sound

end OpenList

/-- The slot may hold any value: it is in a list, or behind an `=`. -/
def Slot.TakesAny : Slot → Prop
  | .item _ _ entry => entry.assigned = true
  | .element _ _ => True

mutual

/-- What has been read around the body is sound. -/
def Site.Sound : Site → Prop
  | .document => True
  | .object slot => slot.Sound

/-- What has been read around the value is sound. -/
def Slot.Sound : Slot → Prop
  | .item site body entry => site.Sound ∧ body.Sound ∧ entry.Sound
  | .element slot list => slot.Sound ∧ slot.TakesAny ∧ list.Sound

end

/-- What has been read up to the reading point is sound. -/
def ReadingPoint.Sound : ReadingPoint → Prop
  | .items site body => site.Sound ∧ body.Sound
  | .keys site body entry => (Slot.item site body entry).Sound
  | .value site body entry => (Slot.item site body entry).Sound ∧ entry.assigned = true
  | .list slot elements => (Slot.element slot elements).Sound

namespace OpenBody.Sound

variable {body : OpenBody} (hbody : body.Sound)
include hbody

theorem comment {token : Token} (htoken : (Part.comment token.text).Sound) (lastLine : Nat) :
    (body.comment lastLine token).Sound := by
  have hlead : (body.leadComment lastLine token).Sound :=
    ⟨hbody.items, List.forall_mem_cons.mpr ⟨htoken, hbody.lead⟩⟩
  unfold OpenBody.comment
  split
  next item items hitems =>
    split
    · have hall := hbody.items
      rw [hitems] at hall
      obtain ⟨hitem, hothers⟩ := List.forall_mem_cons.mp hall
      obtain ⟨hown, habove, hkeys, hvalue, -⟩ := Item.forall_parts.mp hitem
      refine ⟨List.forall_mem_cons.mpr ⟨Item.forall_parts.mpr ?_, hothers⟩, hbody.lead⟩
      refine ⟨hown, habove, hkeys, hvalue, ?_⟩
      rintro text ⟨⟩
      exact htoken
    · exact hlead
  next => exact hlead

theorem push {item : Item} (hitem : ∀ part ∈ item.parts, part.Sound) : (body.push item).Sound :=
  ⟨List.forall_mem_cons.mpr ⟨hitem, hbody.items⟩, by simp [OpenBody.push]⟩

theorem startItem {token : Token} {kind : KeyKind} (htoken : (Part.key ⟨kind, token.text⟩).Sound)
    (lastLine : Nat) : (body.startItem lastLine kind token).Sound :=
  ⟨List.cons_ne_nil _ _, List.forall_mem_singleton.mpr htoken, hbody.lead⟩

theorem close : ∀ part ∈ body.close.parts, part.Sound := by
  refine Body.forall_parts.mpr ⟨?_, ?_⟩
  · intro item hitem
    exact hbody.items item (List.mem_reverse.mp hitem)
  · intro text htext
    exact hbody.lead text (List.mem_reverse.mp htext)

end OpenBody.Sound

namespace OpenItem.Sound

variable {item : OpenItem} (hitem : item.Sound)
include hitem

theorem addKey {token : Token} {kind : KeyKind} (htoken : (Part.key ⟨kind, token.text⟩).Sound) :
    (item.addKey kind token).Sound :=
  ⟨List.cons_ne_nil _ _, List.forall_mem_cons.mpr ⟨htoken, hitem.keys⟩, hitem.lead⟩

theorem close {value : Value} (hvalue : ∀ part ∈ value.parts, part.Sound)
    (hobject : item.assigned = true ∨ value.isObject = true) (stop : Nat) :
    ∀ part ∈ (item.close value stop).parts, part.Sound := by
  refine Item.forall_parts.mpr ⟨⟨?_, ?_⟩, ?_, ?_, hvalue, by simp [OpenItem.close]⟩
  · exact List.reverse_ne_nil_iff.mpr hitem.nonempty
  · intro hassigned
    refine hobject.resolve_left ?_
    rw [show item.assigned = false from hassigned]
    exact Bool.false_ne_true
  · intro text htext
    exact hitem.lead text (List.mem_reverse.mp htext)
  · intro key hkey
    exact hitem.keys key (List.mem_reverse.mp hkey)

end OpenItem.Sound

namespace OpenList.Sound

variable {list : OpenList} (hlist : list.Sound)
include hlist

theorem comment {token : Token} (htoken : (Part.comment token.text).Sound) :
    (list.comment token).Sound := by
  have hpending : OpenList.Sound { list with pending := token.text :: list.pending } :=
    ⟨hlist.elements, List.forall_mem_cons.mpr ⟨htoken, hlist.pending⟩⟩
  unfold OpenList.comment
  split
  next element elements helements =>
    split
    · have hall := hlist.elements
      rw [helements] at hall
      obtain ⟨helement, hothers⟩ := List.forall_mem_cons.mp hall
      obtain ⟨hown, habove, hvalue, -⟩ := Element.forall_parts.mp helement
      refine ⟨List.forall_mem_cons.mpr ⟨Element.forall_parts.mpr ?_, hothers⟩, hlist.pending⟩
      refine ⟨hown, habove, hvalue, ?_⟩
      rintro text ⟨⟩
      exact htoken
    · exact hpending
  next => exact hpending

theorem push {value : Value} (hvalue : ∀ part ∈ value.parts, part.Sound) (line : Nat) :
    (list.push value line).Sound := by
  refine ⟨List.forall_mem_cons.mpr ⟨Element.forall_parts.mpr ?_, hlist.elements⟩,
    by simp [OpenList.push]⟩
  refine ⟨trivial, ?_, hvalue, by simp⟩
  intro text htext
  exact hlist.pending text (List.mem_reverse.mp htext)

theorem close : ∀ part ∈ list.close.parts, part.Sound := by
  refine ListBody.forall_parts.mpr ⟨?_, ?_⟩
  · intro element helement
    exact hlist.elements element (List.mem_reverse.mp helement)
  · intro text htext
    exact hlist.pending text (List.mem_reverse.mp htext)

end OpenList.Sound

namespace Slot.Sound

variable {slot : Slot} (hslot : slot.Sound)
include hslot

/-- A sound value that the slot may hold leaves everything sound. -/
theorem fill (value : Value) (hvalue : ∀ part ∈ value.parts, part.Sound)
    (htakes : slot.TakesAny ∨ value.isObject = true) (token : Token) :
    (slot.fill value token).Sound := by
  cases slot with
  | item site body entry =>
      obtain ⟨hsite, hbody, hentry⟩ := hslot
      exact ⟨hsite, hbody.push (hentry.close hvalue htakes _)⟩
  | element slot list =>
      obtain ⟨hslot, htakes, hlist⟩ := hslot
      exact ⟨hslot, htakes, hlist.push hvalue _⟩

theorem start (htakes : slot.TakesAny) {token : Token} (htoken : token.Sound)
    {next : ReadingPoint} (hstarts : slot.Starts token next) : next.Sound := by
  cases hstarts with
  | @scalar kind hkind =>
      exact hslot.fill (.literal ⟨kind, token.text⟩)
        (List.forall_mem_singleton.mpr (htoken.literal hkind)) (.inl htakes) token
  | object hkind => exact ⟨hslot, by simp, by simp⟩
  | list hkind => exact ⟨hslot, htakes, by simp, by simp⟩

end Slot.Sound

/-- Every token leaves what has been read sound. -/
theorem ReadingPoint.Sound.step {point next : ReadingPoint} (hpoint : point.Sound)
    {token : Token} (htoken : token.Sound) {lastLine : Nat}
    (hstep : point.step lastLine token = .ok next) : next.Sound := by
  cases advances_of_step hstep with
  | comment hkind =>
      obtain ⟨hsite, hbody⟩ := hpoint
      exact ⟨hsite, hbody.comment (htoken.comment hkind) lastLine⟩
  | comma hkind htrailing =>
      obtain ⟨hsite, hbody⟩ := hpoint
      exact ⟨hsite, hbody.items, hbody.lead⟩
  | @closeObject slot body hkind =>
      obtain ⟨hslot, hbody⟩ := hpoint
      exact Slot.Sound.fill hslot (.object body.close) hbody.close (.inr rfl) token
  | firstKey hkey =>
      obtain ⟨hsite, hbody⟩ := hpoint
      exact ⟨hsite, hbody, hbody.startItem (htoken.key hkey) lastLine⟩
  | nextKey hkey =>
      obtain ⟨hsite, hbody, hentry⟩ := hpoint
      exact ⟨hsite, hbody, hentry.addKey (htoken.key hkey)⟩
  | assign hkind =>
      obtain ⟨hsite, hbody, hentry⟩ := hpoint
      exact ⟨⟨hsite, hbody, hentry.nonempty, hentry.keys, hentry.lead⟩, rfl⟩
  | block hkind => exact ⟨hpoint, by simp, by simp⟩
  | valueComment hkind =>
      obtain ⟨⟨hsite, hbody, hentry⟩, hassigned⟩ := hpoint
      exact ⟨⟨hsite, hbody, hentry.nonempty, hentry.keys,
        List.forall_mem_cons.mpr ⟨htoken.comment hkind, hentry.lead⟩⟩, hassigned⟩
  | value hstarts => exact hpoint.1.start hpoint.2 htoken hstarts
  | listComment hkind =>
      obtain ⟨hslot, htakes, hlist⟩ := hpoint
      exact ⟨hslot, htakes, hlist.comment (htoken.comment hkind)⟩
  | listComma hkind hawaits =>
      obtain ⟨hslot, htakes, hlist⟩ := hpoint
      exact ⟨hslot, htakes, hlist.elements, hlist.pending⟩
  | @closeList slot elements hkind =>
      obtain ⟨hslot, htakes, hlist⟩ := hpoint
      exact hslot.fill (.list elements.close) hlist.close (.inl htakes) token
  | @element slot elements _ hawaits hstarts =>
      have helement : (Slot.element slot elements).Sound := hpoint
      exact helement.start trivial htoken hstarts

theorem Assembly.run_cons_eq_ok {assembly after : Assembly} {token : Token} {tokens : List Token} :
    assembly.run (token :: tokens) = .ok after ↔
      ∃ next, assembly.point.step assembly.lastLine token = .ok next ∧
        run ⟨next, token.stop.line⟩ tokens = .ok after := by
  rw [run, List.foldlM_cons, step]
  cases assembly.point.step assembly.lastLine token with
  | error fault => simp [bind, Except.bind]
  | ok next => simp [bind, Except.bind, run]

/-- What is assembled from sound tokens is sound. -/
theorem Assembly.sound_of_run {assembly after : Assembly} (hpoint : assembly.point.Sound)
    {tokens : List Token} (htokens : ∀ token ∈ tokens, token.Sound)
    (hrun : assembly.run tokens = .ok after) : after.point.Sound := by
  induction tokens generalizing assembly with
  | nil =>
      cases hrun
      exact hpoint
  | cons token tokens ih =>
      obtain ⟨htoken, htokens⟩ := List.forall_mem_cons.mp htokens
      obtain ⟨next, hstep, hnext⟩ := run_cons_eq_ok.mp hrun
      exact ih (hpoint.step htoken hstep) htokens hnext

theorem Assembly.finish_eq_ok {assembly : Assembly} {position : Position} {body : Body} :
    assembly.finish position = .ok body ↔
      ∃ opened, assembly.point = .items .document opened ∧ body = opened.close := by
  constructor
  · intro hfinish
    rw [finish, ReadingPoint.finish.eq_def] at hfinish
    split at hfinish
    next body' hbody =>
      split at hbody <;> cases hbody
      cases hfinish
      next opened hpoint => exact ⟨opened, hpoint, rfl⟩
    next => cases hfinish
  · rintro ⟨opened, hpoint, rfl⟩
    rw [finish, hpoint]
    rfl

/-- A source is a document if its tokens lead to an end of the document's own body. -/
theorem Document.parse_eq_ok {source : String} {document : Document} :
    Document.parse source = .ok document ↔ ∃ stream opened lastLine,
      TokenStream.scan source = .ok stream ∧
      Assembly.start.run stream.tokens = .ok ⟨.items .document opened, lastLine⟩ ∧
      document = ⟨opened.close, some source⟩ := by
  rw [Document.parse, Except.bind_eq_ok]
  constructor
  · rintro ⟨stream, hscan, hassemble⟩
    obtain ⟨body, hbody, hdocument⟩ := Except.bind_eq_ok.mp hassemble
    obtain ⟨⟨point, lastLine⟩, hrun, hfinish⟩ :=
      Except.bind_eq_ok.mp (Except.mapError_eq_ok.mp hbody)
    obtain ⟨opened, rfl, rfl⟩ := Assembly.finish_eq_ok.mp hfinish
    cases hdocument
    exact ⟨stream, opened, lastLine, Except.mapError_eq_ok.mp hscan, hrun, rfl⟩
  · rintro ⟨stream, opened, lastLine, hscan, hrun, rfl⟩
    have hbody : stream.assemble = .ok opened.close :=
      Except.bind_eq_ok.mpr ⟨_, hrun, Assembly.finish_eq_ok.mpr ⟨opened, rfl, rfl⟩⟩
    exact ⟨stream, Except.mapError_eq_ok.mpr hscan,
      Except.bind_eq_ok.mpr ⟨_, Except.mapError_eq_ok.mpr hbody, rfl⟩⟩

/-- Every part of a document that was read from a source is sound. -/
theorem Document.sound_of_parse {source : String} {document : Document}
    (hparse : Document.parse source = .ok document) :
    ∀ part ∈ document.body.parts, part.Sound := by
  obtain ⟨stream, opened, lastLine, hscan, hrun, rfl⟩ := parse_eq_ok.mp hparse
  have hstart : Assembly.start.point.Sound := ⟨trivial, by simp, by simp⟩
  have hpoint := Assembly.sound_of_run hstart (TokenStream.sound_of_scan hscan) hrun
  exact OpenBody.Sound.close hpoint.2

end HclEditor
