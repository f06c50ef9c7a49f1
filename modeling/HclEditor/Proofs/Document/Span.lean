import Mathlib
import HclEditor.Proofs.Assembly.Shift
import HclEditor.Proofs.Document.Extent

/-!
# The spans of items

The span of an item holds its own text and nothing else, from its first key to the end of its
value. The spans of the items in its value lie inside it and those of later items behind it.
Read on its own, its text is a document with this item alone.
-/

namespace HclEditor

namespace Item

/-- The tokens between the keys of an item and its value. -/
inductive IsSign : Bool → List Token → Prop where
  | block : IsSign false []
  | assigned {sign : Token} {comments : List Token} (hsign : sign.kind = .assign)
      (hcomments : ∀ token ∈ comments, token.kind = .comment) : IsSign true (sign :: comments)

/-- The item is written with these tokens: one for each of its keys, its sign, and those of its
value, the last of which stands apart. -/
structure WrittenWith (item : Item) (keys sign own : List Token) (last : Token) : Prop where
  texts : keys.map (fun token => (token.kind, token.text)) =
    item.keys.map fun key => (key.kind.tokenKind, key.text)
  sign : IsSign item.assigned sign
  value : Value.ReadFrom own last item.value
  takes : item.assigned = true ∨ item.value.isObject = true

end Item

theorem OpenBody.Opens.exists_keys {body : OpenBody} {lastLine : Nat} {tokens : List Token}
    {entry : OpenItem} (hopens : body.Opens lastLine tokens entry) :
    ∃ first keys sign, tokens = first :: keys ++ sign ∧ entry.start = first.start.offset ∧
      (first :: keys).map (fun token => (token.kind, token.text)) =
        entry.keys.reverse.map (fun key => (key.kind.tokenKind, key.text)) ∧
      Item.IsSign entry.assigned sign := by
  induction hopens with
  | @first token kind hkey =>
      refine ⟨token, [], [], rfl, rfl, ?_, .block⟩
      simp [startItem, TokenKind.eq_of_keyKind? hkey]
  | @key _ entry token kind _ hassigned hkey ih =>
      obtain ⟨first, keys, sign, rfl, hstart, hkeys, hsign⟩ := ih
      rw [hassigned] at hsign
      cases hsign
      refine ⟨first, keys ++ [token], [], by simp, hstart, ?_, hassigned ▸ .block⟩
      rw [← List.cons_append, List.map_append, hkeys, OpenItem.addKey, List.reverse_cons,
        List.map_append]
      simp [TokenKind.eq_of_keyKind? hkey]
  | @assign _ entry token _ hassigned hkind ih =>
      obtain ⟨first, keys, sign, rfl, hstart, hkeys, hsign⟩ := ih
      rw [hassigned] at hsign
      cases hsign
      exact ⟨first, keys, [token], by simp, hstart, hkeys, .assigned hkind (by simp)⟩
  | @comment _ entry token _ hassigned hkind ih =>
      obtain ⟨first, keys, sign, rfl, hstart, hkeys, hsign⟩ := ih
      rw [hassigned] at hsign
      cases hsign with
      | @assigned sign comments hassign hcomments =>
          refine ⟨first, keys, sign :: (comments ++ [token]), by simp, hstart, hkeys, ?_⟩
          rw [hassigned]
          exact .assigned hassign
            (List.forall_mem_append.mpr ⟨hcomments, List.forall_mem_singleton.mpr hkind⟩)

theorem Value.ReadFrom.last_ne_comment {own : List Token} {last : Token} {value : Value}
    (hvalue : Value.ReadFrom own last value) : last.kind ≠ .comment := by
  cases hvalue with
  | literal hkind => simp [hkind]
  | object _ _ hclosing => simp [hclosing]
  | list _ _ hclosing => simp [hclosing]

namespace Item.ReadFrom

variable {own : List Token} {last : Token} {item : Item} (hitem : item.ReadFrom own last)
include hitem

theorem exists_writtenWith :
    ∃ first keys sign value, own = first :: keys ++ sign ++ value ∧
      item.WrittenWith (first :: keys) sign value last ∧
        item.span = some ⟨first.start.offset, last.stop.offset⟩ := by
  obtain ⟨head, value, body, lastLine, entry, rfl, hopens, hvalue, htakes, hkeys, hassigned,
    hspan⟩ := hitem
  obtain ⟨first, keys, sign, rfl, hstart, htexts, hsign⟩ := hopens.exists_keys
  refine ⟨first, keys, sign, value, rfl, ⟨?_, ?_, hvalue, ?_⟩, ?_⟩
  · rw [htexts, hkeys]
  · rwa [hassigned]
  · rwa [hassigned]
  · rw [hspan, hstart]

theorem exists_cons :
    ∃ first rest, own = first :: rest ∧
      item.span = some ⟨first.start.offset, last.stop.offset⟩ := by
  obtain ⟨first, keys, sign, value, rfl, -, hspan⟩ := hitem.exists_writtenWith
  exact ⟨first, _, rfl, hspan⟩

/-- The tokens of an item, taken out of their surroundings, are those of a document with this
item alone. -/
theorem alone {front : Position} {tokens : List Token} {final : Token}
    (hown : own = tokens.map (.behind front)) (hlast : last = final.behind front)
    (hlines : ∀ token ∈ tokens, 0 < token.stop.line) :
    ∃ again, OpenBody.ReadFrom 0 (tokens ++ [final]) (OpenBody.push {} again) final.stop.line ∧
      again.keys = item.keys ∧ again.assigned = item.assigned ∧
      again.value.shift front.offset = item.value ∧
      again.span.map (.shift front.offset) = item.span := by
  obtain ⟨moved, value, body, lastLine, entry, rfl, hopens, hvalue, htakes, hkeys, hassigned,
    hspan⟩ := hitem
  obtain ⟨head, own, rfl, rfl, hmoved⟩ := List.map_eq_append_iff.mp hown.symm
  obtain ⟨opened, hopened, hkeys', hassigned', hstart⟩ := hopens.alone
  obtain ⟨again, hagain, hread⟩ :=
    hvalue.of_behind hmoved hlast.symm (List.forall_mem_append.mp hlines).2
  rw [hagain, again.isObject_shift, ← hassigned'] at htakes
  refine ⟨opened.close again final.stop.offset,
    (OpenBody.ReadFrom.nil 0).item hopened hread htakes, ?_, ?_, hagain.symm, ?_⟩
  · rw [hkeys, ← hkeys']
    rfl
  · rw [hassigned, ← hassigned']
    rfl
  · rw [hspan, ← hstart, hlast]
    rfl

end Item.ReadFrom

namespace Document

/-- The span is that of the item at the path: it leads from the first key of the item to the end
of its value, around the items in its value and in front of those that are later, and the text in
it is that of a document with the item alone, where all spans count from the start of this one. -/
structure Spans (document : Document) (source : String) (path : List Nat) (entry : Item)
    (span : Span) : Prop where
  recorded : entry.span = some span
  written : ∃ stream ahead first keys sign own last behind, TokenStream.scan source = .ok stream ∧
    stream.tokens = ahead ++ (first :: keys ++ sign ++ own ++ last :: behind) ∧
      entry.WrittenWith (first :: keys) sign own last ∧
        span = ⟨first.start.offset, last.stop.offset⟩
  nested : ∀ below inner, below ≠ [] →
    document.root.node? (path ++ below) = some (.item inner) →
      ∃ inside, inner.span = some inside ∧ span.start < inside.start ∧ inside.stop < span.stop
  later : ∀ trunk index rest later rest' other, path = trunk ++ index :: rest → index < later →
    document.root.node? (trunk ++ later :: rest') = some (.item other) →
      ∃ behind, other.span = some behind ∧ span.stop ≤ behind.start
  alone : ∃ before slice after, source = before ++ slice ++ after ∧ slice ≠ "" ∧
    span.start = before.utf8ByteSize ∧ span.stop = (before ++ slice).utf8ByteSize ∧
      ∃ again, parse slice = .ok ⟨⟨[again], []⟩, some slice⟩ ∧ again.keys = entry.keys ∧
        again.assigned = entry.assigned ∧ again.value.shift span.start = entry.value ∧
          again.span.map (.shift span.start) = entry.span

section Parse

variable {source : String} {stream : TokenStream} (hscan : TokenStream.scan source = .ok stream)
include hscan

/-- The span of an item in the value of another lies inside the span of this one. -/
theorem span_inside {ahead own behind : List Token} {last : Token} {entry inner : Item}
    (htokens : stream.tokens = ahead ++ (own ++ last :: behind)) (hentry : entry.ReadFrom own last)
    {below : List Nat} (hbelow : below ≠ [])
    (hinner : (Node.item entry).node? below = some (.item inner)) :
    ∃ span inside, entry.span = some span ∧ inner.span = some inside ∧
      span.start < inside.start ∧ inside.stop < span.stop := by
  have hnode : (Node.item entry).ReadFrom own last := hentry
  obtain ⟨front, own', last', rest, hown, hread, houter⟩ := hnode.exists_of_node? hinner
  obtain ⟨hfront, hrest⟩ := houter hbelow
  obtain ⟨first, others, rfl, hspan⟩ := hentry.exists_cons
  obtain ⟨first', others', rfl, hinside⟩ := Item.ReadFrom.exists_cons hread
  have hfirst : first ∈ front := by
    cases front with
    | nil => exact absurd rfl hfront
    | cons outer front =>
        rw [(List.cons.inj hown).1]
        exact List.mem_cons_self
  have hlast : last ∈ rest := by
    obtain ⟨rest, outer, rfl⟩ := rest.eq_nil_or_concat.resolve_left hrest
    have hends : first :: others ++ [last] =
        front ++ (first' :: others' ++ last' :: rest) ++ [outer] := by
      rw [hown]
      simp
    rw [List.singleton_inj.mp (List.append_inj_right' hends rfl)]
    simp
  have hrow : stream.tokens =
      (ahead ++ front) ++ (first' :: others' ++ last' :: (rest ++ behind)) := by
    rw [htokens, List.append_cons _ last, hown]
    simp
  have hrow' : stream.tokens =
      (ahead ++ front ++ first' :: others' ++ [last']) ++ (rest ++ behind) := by
    rw [hrow]
    simp
  refine ⟨_, _, hspan, hinside, ?_, ?_⟩
  · calc first.start.offset < first.stop.offset :=
          TokenStream.start_lt_stop hscan (by simp [htokens])
      _ ≤ first'.start.offset := TokenStream.stop_le_start hscan hrow (by simp [hfirst]) (by simp)
  · calc last'.stop.offset ≤ last.start.offset :=
          TokenStream.stop_le_start hscan hrow' (by simp) (by simp [hlast])
      _ < last.stop.offset := TokenStream.start_lt_stop hscan (by simp [htokens])

variable {document : Document} (hall : Node.AllReadFrom stream.tokens document.root.children)
include hall

/-- The span of an item ends in front of those of later ones. -/
theorem span_stop_le {trunk rest rest' : List Nat} {index later : Nat} (hlt : index < later)
    {entry other : Item}
    (hentry : document.root.node? (trunk ++ index :: rest) = some (.item entry))
    (hother : document.root.node? (trunk ++ later :: rest') = some (.item other)) :
    ∃ span behind, entry.span = some span ∧ other.span = some behind ∧
      span.stop ≤ behind.start := by
  obtain ⟨before, own, last, between, own', last', after, htokens, hread, hread'⟩ :=
    hall.exists_of_paths hlt hentry hother
  obtain ⟨first, others, rfl, hspan⟩ := Item.ReadFrom.exists_cons hread
  obtain ⟨first', others', rfl, hbehind⟩ := Item.ReadFrom.exists_cons hread'
  have hrow : stream.tokens = (before ++ first :: others ++ [last]) ++
      (between ++ (first' :: others' ++ last' :: after)) := by
    rw [htokens]
    simp
  exact ⟨_, _, hspan, hbehind, TokenStream.stop_le_start hscan hrow (by simp) (by simp)⟩

end Parse

/-- Every item of a document, at any depth, has its span. -/
theorem exists_spans_of_parse {source : String} {document : Document}
    (hparse : parse source = .ok document) {path : List Nat} {entry : Item}
    (hentry : document.root.node? path = some (.item entry)) :
    ∃ span, document.Spans source path entry span := by
  obtain ⟨stream, hscan, hall⟩ := allReadFrom_of_parse hparse
  have hpath : path ≠ [] := by
    rintro rfl
    cases hentry
  obtain ⟨ahead, own, last, behind, htokens, hread⟩ := hall.exists_of_node? hpath hentry
  have hitem : entry.ReadFrom own last := hread
  obtain ⟨first, keys, sign, value, rfl, hwritten, hspan⟩ := hitem.exists_writtenWith
  refine ⟨_, hspan, ⟨stream, ahead, first, keys, sign, value, last, behind, hscan, htokens,
    hwritten, rfl⟩, ?_, ?_, ?_⟩
  · intro below inner hbelow hinner
    rw [Node.node?_append, hentry] at hinner
    obtain ⟨span, inside, hsame, hinside, hlt⟩ := span_inside hscan htokens hitem hbelow hinner
    obtain rfl := Option.some.inj (hspan.symm.trans hsame)
    exact ⟨inside, hinside, hlt⟩
  · rintro trunk index rest later rest' other rfl hlt hother
    obtain ⟨span, behind, hsame, hbehind, hle⟩ := span_stop_le hscan hall hlt hentry hother
    obtain rfl := Option.some.inj (hspan.symm.trans hsame)
    exact ⟨behind, hbehind, hle⟩
  · obtain ⟨before, slice, after, tokens, final, stop, hsplit, hstart, hstop, hslice, hmoved,
      hfinal, hlines⟩ := TokenStream.exists_slice hscan htokens hwritten.value.last_ne_comment
    obtain ⟨again, hagain, hsame⟩ :=
      hitem.alone hmoved hfinal (List.forall_mem_append.mp hlines).1
    refine ⟨before, slice, after, hsplit, ?_, ?_, ?_, again, ?_, hsame⟩
    · rintro rfl
      have hempty := congrArg (Except.map fun stream => stream.tokens.length) hslice
      simp [Except.map, TokenStream.scan] at hempty
    · rw [hstart, Position.offset_advance_start]
    · rw [hstop, Position.offset_advance_start]
    · exact parse_eq_ok.mpr ⟨_, _, _, hslice, hagain.run .document, rfl⟩

/-- An item of an object in a list, whose value is a heredoc that the text ends with. -/
theorem exists_spans_of_parse_heredoc : ∃ document entry,
    parse "k = [\n  \x7b s = <<E\nx\nE\n  , t = 2 \x7d\n]\n" = .ok document ∧
      document.root.node? [0, 0, 0] = some (.item entry) ∧ entry.span = some ⟨10, 21⟩ ∧
        ∃ span, document.Spans "k = [\n  \x7b s = <<E\nx\nE\n  , t = 2 \x7d\n]\n" [0, 0, 0]
          entry span := by
  obtain ⟨document, hparse, hdocument⟩ := Except.exists_of_map
    (x := parse "k = [\n  \x7b s = <<E\nx\nE\n  , t = 2 \x7d\n]\n")
    (p := fun document => decide
      (((document.root.node? [0, 0, 0]).elim [] Node.entered).map Item.span = [some ⟨10, 21⟩]))
    (by decide +kernel)
  rw [decide_eq_true_eq] at hdocument
  cases hnode : document.root.node? [0, 0, 0] with
  | none => simp [hnode] at hdocument
  | some node =>
      rw [hnode] at hdocument
      cases node with
      | item entry =>
          exact ⟨document, entry, hparse, hnode, List.singleton_inj.mp hdocument,
            exists_spans_of_parse hparse hnode⟩
      | document body => cases hdocument
      | element entry => cases hdocument

end Document

end HclEditor
