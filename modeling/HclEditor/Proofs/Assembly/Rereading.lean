import Mathlib
import HclEditor.Proofs.Assembly.Reader
import HclEditor.Proofs.Assembly.Step

/-!
# Layouts are read back

The pieces of a layout lead a reader through the document they were made of. A value is
read back into whichever slot awaits it, and in a body or a list each comment is found by
its owner again: comments above an item stand on lines of their own, and the comment
behind a value starts on the line on which the value ends.
-/

namespace HclEditor

open Piece Layout

namespace Value

/-- In any slot that awaits the value, it is read back from the pieces. -/
def RereadFrom (value : Value) (pieces : List Piece) : Prop :=
  ∀ {point : ReadingPoint} {slot : Slot}, point.AwaitsValue slot value.startKind →
    ∀ lastLine position, ∃ again token, value.ReadBack again ∧
      Moves pieces ⟨point, lastLine, position⟩
        ⟨slot.fill again token, token.stop.line, token.stop⟩

end Value

/-- The keys behind the first join the ones before them. -/
theorem moves_otherKeys (keys : List Key) (site : Site) (body : OpenBody) (item : OpenItem)
    (lastLine : Nat) (position : Position) :
    ∃ lastLine' position',
      Moves (keys.flatMap fun key => [.gap [' '], keyPiece key])
        ⟨.keys site body item, lastLine, position⟩
        ⟨.keys site body { item with keys := keys.reverse ++ item.keys }, lastLine',
          position'⟩ := by
  induction keys generalizing item lastLine position with
  | nil => exact ⟨lastLine, position, .nil _⟩
  | cons key keys ih =>
      have hstep (lastLine : Nat) (token : Token) (hkind : token.kind = key.kind.tokenKind) :
          ReadingPoint.step lastLine token (.keys site body item) =
            .ok (.keys site body (item.addKey key.kind token)) := by
        cases hkey : key.kind <;> rw [hkey] at hkind <;>
          simp [ReadingPoint.step, hkind, KeyKind.tokenKind, TokenKind.keyKind?]
      obtain ⟨lastLine', position', hmoves⟩ := ih _ _ _
      refine ⟨lastLine', position', .gap _ (.token (hstep _ _ rfl) ?_)⟩
      rw [List.reverse_cons, List.append_assoc]
      exact hmoves

/-- The keys start the item that the body awaits. -/
theorem OpenBody.AwaitsItem.moves_keyPieces {body : OpenBody} {items : List Item}
    {lead : List String} {blank : Bool} {lastLine : Nat} {position : Position}
    (hawaits : body.AwaitsItem items lead blank lastLine position.line) {keys : List Key}
    (hkeys : keys ≠ []) (site : Site) :
    ∃ start lastLine' position',
      Moves (keyPieces keys) ⟨.items site body, lastLine, position⟩
        ⟨.keys site body ⟨keys.reverse, lead, blank, start, false⟩, lastLine', position'⟩ := by
  obtain ⟨key, keys, rfl⟩ := List.exists_cons_of_ne_nil hkeys
  have hpieces : keyPieces (key :: keys) =
      keyPiece key :: keys.flatMap fun key => [.gap [' '], keyPiece key] := by
    rw [keyPieces, List.map_cons, joined_cons, List.flatMap_map]
    rfl
  have hstep (token : Token) (hkind : token.kind = key.kind.tokenKind)
      (htext : token.text = key.text) (hstart : token.start = position) :
      ReadingPoint.step lastLine token (.items site body) =
        .ok (.keys site body ⟨[key], lead, blank, position.offset, false⟩) := by
    have hitem : body.startItem lastLine key.kind token =
        ⟨[key], lead, blank, position.offset, false⟩ := by
      rw [startItem, htext, hawaits.lead_eq, hawaits.blank_eq token (by rw [hstart]), hstart]
    rw [← hitem]
    cases hkey : key.kind <;> rw [hkey] at hkind <;>
      simp [ReadingPoint.step, hkind, KeyKind.tokenKind, TokenKind.keyKind?]
  obtain ⟨lastLine', position', hmoves⟩ := moves_otherKeys keys site body
    ⟨[key], lead, blank, position.offset, false⟩ _ _
  refine ⟨position.offset, lastLine', position', ?_⟩
  rw [hpieces]
  refine .token (hstep _ rfl rfl rfl) ?_
  rw [List.reverse_cons]
  exact hmoves

/-- What stands between keys and value leads to a point that awaits the value. -/
theorem moves_signPieces (width : Nat) {item : Item}
    (hsign : item.assigned = false → item.value.isObject = true) (site : Site)
    (body : OpenBody) (keys : List Key) (lead : List String) (blank : Bool) (start lastLine : Nat)
    (position : Position) :
    ∃ point lastLine' position',
      point.AwaitsValue (.item site body ⟨keys, lead, blank, start, item.assigned⟩)
        item.value.startKind ∧
      Moves (Entry.signPieces width item)
        ⟨.keys site body ⟨keys, lead, blank, start, false⟩, lastLine, position⟩
        ⟨point, lastLine', position'⟩ := by
  rw [Entry.signPieces]
  split
  next hassigned =>
    rw [hassigned]
    exact ⟨.value site body ⟨keys, lead, blank, start, true⟩, _, _,
      item.value.awaitsValue_of_value _ _ _, .gap _ (.token rfl (.gap _ (.nil _)))⟩
  next hassigned =>
    rw [Bool.not_eq_true] at hassigned
    rw [hassigned]
    exact ⟨.keys site body ⟨keys, lead, blank, start, false⟩, _, _,
      Value.awaitsValue_of_keys (hsign hassigned) _ _ _, .gap _ (.nil _)⟩

/-- The item of an entry is read back below `above`, when the lines around it say so. -/
theorem Layout.Entry.moves_pieces {margin : String} (hmargin : '\n' ∉ margin.toList) (width : Nat)
    {entry : Entry} (hitem : (Part.item entry.item).Sound)
    (hvalue : entry.item.value.RereadFrom entry.value) {above : Option Item}
    {body : OpenBody} {items : List Item} {lastLine : Nat} {position : Position}
    (hawaits : body.AwaitsItem items [] (above.any (·.setApart entry.item)) lastLine
      position.line) (site : Site) :
    ∃ again body' position', entry.item.ReadBack above again ∧ body'.items = again :: items ∧
      body'.lead = [] ∧
      Moves (entry.pieces margin width) ⟨.items site body, lastLine, position⟩
        ⟨.items site body', position'.line, position'⟩ := by
  obtain ⟨⟨keys, value, assigned, comments, blankBefore, span⟩, pieces⟩ := entry
  obtain ⟨body₁, lastLine₁, position₁, hawaits₁, hlines⟩ :=
    hawaits.moves_linesPieces hmargin comments.lead site
  rw [← position₁.line_advance_of_not_mem hmargin, List.append_nil] at hawaits₁
  obtain ⟨start, lastLine₂, position₂, hkeys⟩ := hawaits₁.moves_keyPieces hitem.1 site
  obtain ⟨point, lastLine₃, position₃, hslot, hsign⟩ :=
    moves_signPieces width hitem.2 site body₁ keys.reverse _ _ start lastLine₂ position₂
  obtain ⟨again, token, hagain, hmoves⟩ := hvalue hslot lastLine₃ position₃
  obtain ⟨body₄, position₄, hitems, hlead, htrailing⟩ := body₁.moves_trailingPieces
    (OpenItem.close ⟨keys.reverse, (comments.lead.map withoutReturn).reverse, above.any _,
      start, assigned⟩ again token.stop.offset) rfl site comments.line token.stop
  rw [hawaits₁.items_eq] at hitems
  have hmargins := Moves.gap margin.toList
    (((hkeys.append hsign).append hmoves).append htrailing)
  refine ⟨_, body₄, position₄, ?_, hitems, hlead, hlines.append hmargins⟩
  rw [OpenItem.close, List.reverse_reverse, List.reverse_reverse]
  exact .mk hagain above keys assigned comments blankBefore span _

namespace Layout

/-- An item stands below another on the next line, or on the one after if it is set apart. -/
theorem line_separator (above below : Item) (position : Position) :
    (position.advance (separator above below).toList).line =
      position.line + if above.setApart below then 2 else 1 := by
  rw [Position.line_advance, separator_eq]
  split <;> rfl

/-- An item below another follows a blank line if it is set apart. -/
theorem awaitsItem_below {body : OpenBody} (hlead : body.lead = []) (above below : Item)
    {position : Position} (hline : 0 < position.line) :
    body.AwaitsItem body.items [] ((some above).any (·.setApart below)) position.line
      (position.advance (separator above below).toList).line := by
  refine ⟨rfl, hlead, ?_, .inr (.inr ?_)⟩
  · intro token htoken
    rw [OpenBody.blankBeforeItem, hlead, List.isEmpty_nil, if_pos rfl, OpenBody.blankLineBefore,
      htoken, line_separator, Option.any_some]
    cases above.setApart below <;> simp [hline]
  · rw [line_separator]
    split <;> omega

/-- The first item of a body follows no blank line. -/
theorem awaitsItem_first {lastLine line : Nat} (hline : line = lastLine + 1) (item : Item) :
    OpenBody.AwaitsItem {} [] [] ((none : Option Item).any (·.setApart item)) lastLine line := by
  refine ⟨rfl, rfl, ?_, .inl rfl⟩
  intro token htoken
  rw [OpenBody.blankBeforeItem, List.isEmpty_nil, if_pos rfl, OpenBody.blankLineBefore, htoken,
    hline]
  simp

section Entries

variable {margin : String} (hmargin : '\n' ∉ margin.toList)
include hmargin

/-- Where an item is awaited, it is read back together with the items below it. -/
theorem moves_belowPieces {entry : Entry × Nat} {entries : List (Entry × Nat)}
    (hentries : ∀ entry' ∈ entry :: entries,
      (Part.item entry'.1.item).Sound ∧ entry'.1.item.value.RereadFrom entry'.1.value)
    {above : Option Item} {body : OpenBody} {items : List Item} {lastLine : Nat}
    {position : Position}
    (hawaits : body.AwaitsItem items [] (above.any (·.setApart entry.1.item)) lastLine
      position.line) (hline : 0 < position.line) (site : Site) :
    ∃ again body' position',
      Item.AllReadBack above ((entry :: entries).map (·.1.item)) again ∧
      body'.items = again.reverse ++ items ∧ body'.lead = [] ∧
      Moves (entry.1.pieces margin entry.2 ++ belowPieces margin entry.1.item entries)
        ⟨.items site body, lastLine, position⟩ ⟨.items site body', position'.line, position'⟩ := by
  induction entries generalizing entry above body items lastLine position with
  | nil =>
      obtain ⟨hentry, -⟩ := List.forall_mem_cons.mp hentries
      obtain ⟨again, body', position', hagain, hitems, hlead, hmoves⟩ :=
        entry.1.moves_pieces hmargin entry.2 hentry.1 hentry.2 hawaits site
      exact ⟨[again], body', position', .cons hagain (.nil _), hitems, hlead,
        hmoves.append (.nil _)⟩
  | cons below entries ih =>
      obtain ⟨hentry, hentries⟩ := List.forall_mem_cons.mp hentries
      obtain ⟨first, body₁, position₁, hfirst, hitems₁, hlead₁, hmoves₁⟩ :=
        entry.1.moves_pieces hmargin entry.2 hentry.1 hentry.2 hawaits site
      have hline₁ : 0 < position₁.line := hline.trans_le hmoves₁.le_line
      have hbelow :
          0 < (position₁.advance (separator entry.1.item below.1.item).toList).line := by
        rw [line_separator]
        omega
      obtain ⟨others, body₂, position₂, hothers, hitems₂, hlead₂, hmoves₂⟩ :=
        ih hentries (awaitsItem_below hlead₁ entry.1.item below.1.item hline₁) hbelow
      refine ⟨first :: others, body₂, position₂, .cons hfirst hothers, ?_, hlead₂,
        hmoves₁.append (.gap _ hmoves₂)⟩
      rw [hitems₂, hitems₁, List.reverse_cons, List.append_assoc, List.singleton_append]

/-- Items one below the other are read back into an empty body. -/
theorem moves_entriesPieces {entries : List (Entry × Nat)}
    (hentries : ∀ entry ∈ entries,
      (Part.item entry.1.item).Sound ∧ entry.1.item.value.RereadFrom entry.1.value)
    (site : Site) {lastLine : Nat} {position : Position} (hline : position.line = lastLine + 1) :
    ∃ again body' lastLine' position',
      Item.AllReadBack none (entries.map (·.1.item)) again ∧
      body'.items = again.reverse ∧ body'.lead = [] ∧
      (body'.items = [] ∨ entries.isEmpty = false ∧ lastLine' = position'.line) ∧
      Moves (entriesPieces margin entries) ⟨.items site {}, lastLine, position⟩
        ⟨.items site body', lastLine', position'⟩ := by
  cases entries with
  | nil => exact ⟨[], {}, lastLine, position, .nil _, rfl, rfl, .inl rfl, .nil _⟩
  | cons entry entries =>
      obtain ⟨again, body', position', hagain, hitems, hlead, hmoves⟩ :=
        moves_belowPieces hmargin hentries (awaitsItem_first hline entry.1.item)
          (by omega) site
      rw [List.append_nil] at hitems
      exact ⟨again, body', position'.line, position', hagain, hitems, hlead,
        .inr ⟨rfl, rfl⟩, hmoves⟩

end Entries

/-- Dangling comments are kept in front of the end of the body. -/
theorem moves_danglingPieces {margin : String} (hmargin : '\n' ∉ margin.toList) {bare : Bool}
    {comments : List String} (hcomments : ∀ text ∈ comments, (Part.comment text).Sound)
    (site : Site) {body : OpenBody} {lastLine : Nat} {position : Position}
    (habove : body.items = [] ∨ bare = false ∧ lastLine = position.line) :
    ∃ body' lastLine' position', body'.items = body.items ∧
      body'.lead = (comments.map withoutReturn).reverse ++ body.lead ∧
      Moves (danglingPieces margin bare comments) ⟨.items site body, lastLine, position⟩
        ⟨.items site body', lastLine', position'⟩ := by
  induction comments generalizing bare body lastLine position with
  | nil => exact ⟨body, lastLine, position, rfl, rfl, .nil _⟩
  | cons comment comments ih =>
      obtain ⟨hcomment, hcomments⟩ := List.forall_mem_cons.mp hcomments
      -- A comment right behind an item would become its own, so each starts a new line.
      have hlead (token : Token) (htoken : token.start =
          position.advance ((if bare then [] else ['\n']) ++ margin.toList)) :
          body.comment lastLine token = body.leadComment lastLine token := by
        refine OpenBody.comment_eq_leadComment ?_
        rcases habove with hnil | ⟨rfl, rfl⟩
        · exact .inr (.inl hnil)
        · refine .inr (.inr ?_)
          rw [htoken, Position.advance_append, Position.line_advance_of_not_mem _ hmargin,
            Position.line_advance]
          simp
      obtain ⟨token, position₁, htext, hmoves₁⟩ : ∃ token position₁,
          token.text = withoutReturn comment ∧
          Moves (commentPieces comment) ⟨.items site body, lastLine, position.advance
            ((if bare then [] else ['\n']) ++ margin.toList)⟩
            ⟨.items site (body.leadComment lastLine token), position₁.line, position₁⟩ := by
        obtain ⟨position₁, hmoves₁⟩ := Moves.comment comment (.items site body) lastLine
          (position.advance ((if bare then [] else ['\n']) ++ margin.toList)) rfl
        rw [hlead _ rfl] at hmoves₁
        exact ⟨_, position₁, rfl, hmoves₁⟩
      have hbelow : (body.leadComment lastLine token).items = [] ∨
          false = false ∧ position₁.line = position₁.line := .inr ⟨rfl, rfl⟩
      obtain ⟨body', lastLine', position', hitems, hleads, hmoves⟩ :=
        ih hcomments hbelow
      rw [danglingPieces, hcomment.comment_ne_empty, Bool.and_false]
      refine ⟨body', lastLine', position', hitems, ?_, .gap _ (hmoves₁.append hmoves)⟩
      rw [hleads, List.map_cons, List.reverse_cons, List.append_assoc, ← htext]
      rfl

/-- An element is read back into a list that awaits it, with its comma. -/
theorem moves_elementPieces {margin : String} (hmargin : '\n' ∉ margin.toList) {value : Value}
    {pieces : List Piece} (hvalue : value.RereadFrom pieces) (comments : Comments)
    {list : OpenList} {elements : List Element} {position : Position}
    (hawaits : list.AwaitsElement elements [] position.line) (slot : Slot) (lastLine : Nat) :
    ∃ again list' lastLine' position', value.ReadBack again ∧
      list'.AwaitsElement (⟨again, comments.withoutReturns⟩ :: elements) [] position'.line ∧
      Moves (elementPieces margin pieces comments) ⟨.list slot list, lastLine, position⟩
        ⟨.list slot list', lastLine', position'⟩ := by
  obtain ⟨list₁, lastLine₁, position₁, hawaits₁, hlines⟩ :=
    hawaits.moves_linesPieces hmargin comments.lead slot lastLine
  rw [List.append_nil] at hawaits₁
  obtain ⟨again, token, hagain, hmoves⟩ := hvalue
    (value.awaitsValue_of_list slot list₁ hawaits₁.awaitsComma) lastLine₁
    (position₁.advance margin.toList)
  have hcomma : (token.stop.advance ",".toList).line = token.stop.line :=
    token.stop.line_advance_of_not_mem (by decide)
  obtain ⟨list₂, position₂, helements₂, hpending₂, hcomma₂, hline₂, htrailing⟩ :=
    OpenList.moves_trailingPieces
      { list₁.push again token.stop.line with awaitsComma := false } rfl rfl
      hcomma.symm slot comments.line
  have hfeed : (position₂.advance ['\n']).line = position₂.line + 1 :=
    position₂.line_advance ['\n']
  refine ⟨again, list₂, _, position₂.advance ['\n'], hagain, ⟨?_, hpending₂, hcomma₂, ?_⟩,
    hlines.append (.gap _ (hmoves.append (.token rfl (htrailing.append (.gap _ (.nil _))))))⟩
  · rw [helements₂, hawaits₁.elements_eq, hawaits₁.pending_eq, List.reverse_reverse]
    rfl
  · rw [hfeed]
    exact .inr (Nat.lt_succ_of_le hline₂)

/-- A scalar is read back from its token. -/
theorem rereadFrom_scalarPieces {value : Value} (hscalar : value.isLiteral = true) :
    value.RereadFrom (scalarPieces value) := by
  cases value with
  | literal scalar =>
      intro point slot hawaits lastLine position
      exact ⟨.literal scalar, ⟨.literal scalar.kind, scalar.text, position, _⟩, .literal scalar,
        .token (hawaits _ _ rfl) (.nil _)⟩
  | _ => cases hscalar

/-- The scalars behind the first of a compact list are read back, each behind a comma. -/
theorem moves_otherScalars {elements : List Element}
    (hscalars : ∀ element ∈ elements, element.value.isLiteral = true ∧ element.comments = {})
    (list : OpenList) (hpending : list.pending = []) (hcomma : list.awaitsComma = true)
    (slot : Slot) (lastLine : Nat) (position : Position) :
    ∃ again list' lastLine' position', Element.AllReadBack elements again ∧
      list'.elements = again.reverse ++ list.elements ∧ list'.pending = [] ∧
      Moves (elements.flatMap fun element =>
          .token .comma "," :: .gap [' '] :: scalarPieces element.value)
        ⟨.list slot list, lastLine, position⟩ ⟨.list slot list', lastLine', position'⟩ := by
  induction elements generalizing list lastLine position with
  | nil => exact ⟨[], list, lastLine, position, .nil, rfl, hpending, .nil _⟩
  | cons element elements ih =>
      obtain ⟨⟨hscalar, hcomments⟩, hothers⟩ := List.forall_mem_cons.mp hscalars
      have hstep : ReadingPoint.step lastLine
          ⟨.comma, ",", position, position.advance ",".toList⟩ (.list slot list) =
            .ok (.list slot { list with awaitsComma := false }) := by
        simp [ReadingPoint.step, hcomma]
      obtain ⟨value, token, hvalue, hmoves⟩ := rereadFrom_scalarPieces hscalar
        (element.value.awaitsValue_of_list slot
          { list with awaitsComma := false } rfl) (position.advance ",".toList).line
        ((position.advance ",".toList).advance [' '])
      obtain ⟨again, list', lastLine', position', hagain, helements, hpending', hmoves'⟩ :=
        ih hothers (OpenList.push { list with awaitsComma := false } value
          token.stop.line) rfl rfl token.stop.line token.stop
      obtain ⟨inner, comments⟩ := element
      cases hcomments
      refine ⟨⟨value, {}⟩ :: again, list', lastLine', position', .cons hvalue {} hagain, ?_,
        hpending', .token hstep (.gap _ (hmoves.append hmoves'))⟩
      rw [helements, OpenList.push, hpending, List.reverse_cons, List.append_assoc]
      rfl

/-- Scalars on a single line are read back into an empty list. -/
theorem moves_scalars {elements : List Element}
    (hscalars : ∀ element ∈ elements, element.value.isLiteral = true ∧ element.comments = {})
    (slot : Slot) (position : Position) :
    ∃ again list' lastLine' position', Element.AllReadBack elements again ∧
      list'.elements = again.reverse ∧ list'.pending = [] ∧
      Moves (joined [.token .comma ",", .gap [' ']]
          (elements.map fun element => scalarPieces element.value))
        ⟨.list slot {}, position.line, position⟩ ⟨.list slot list', lastLine', position'⟩ := by
  cases elements with
  | nil => exact ⟨[], {}, _, _, .nil, rfl, rfl, .nil _⟩
  | cons element elements =>
      obtain ⟨⟨hscalar, hcomments⟩, hothers⟩ := List.forall_mem_cons.mp hscalars
      obtain ⟨value, token, hvalue, hmoves⟩ := rereadFrom_scalarPieces hscalar
        (element.value.awaitsValue_of_list slot {} rfl) position.line position
      obtain ⟨again, list', lastLine', position', hagain, helements, hpending, hmoves'⟩ :=
        moves_otherScalars hothers (OpenList.push {} value token.stop.line) rfl rfl slot
          token.stop.line token.stop
      obtain ⟨inner, comments⟩ := element
      cases hcomments
      refine ⟨⟨value, {}⟩ :: again, list', lastLine', position', .cons hvalue {} hagain, ?_,
        hpending, ?_⟩
      · rw [helements, List.reverse_cons]
        rfl
      · rw [List.map_cons, joined_cons, List.flatMap_map]
        exact hmoves.append hmoves'

/-- A list on a single line is read back between its brackets. -/
theorem moves_compactPieces {list : ListBody}
    (hscalars : ∀ element ∈ list.elements,
      element.value.isLiteral = true ∧ element.comments = {})
    (hdangling : list.dangling = []) : (Value.list list).RereadFrom (compactPieces list) := by
  intro point slot hawaits lastLine position
  obtain ⟨elements, dangling⟩ := list
  cases hdangling
  obtain ⟨again, list', lastLine', position', hagain, helements, hpending, hmoves⟩ :=
    moves_scalars hscalars slot (position.advance "[".toList)
  have hclose : list'.close = ⟨again, []⟩ := by
    rw [OpenList.close, helements, hpending, List.reverse_reverse]
    rfl
  refine ⟨.list ⟨again, []⟩, ⟨.closeBracket, "]", position', position'.advance "]".toList⟩,
    .list (.mk hagain []), .token (hawaits _ _ rfl) (hmoves.append (.token ?_ (.nil _)))⟩
  rw [← hclose]
  rfl

end Layout

open Layout

-- The recursion is that of the layout; a list carries its open elements along.
mutual

/-- A value is read back from its layout at any depth. -/
theorem Value.rereadFrom_pieces (indent depth : Nat) {value : Value}
    (hparts : ∀ part ∈ value.parts, part.Sound) :
    value.RereadFrom (value.pieces indent depth) := by
  cases value with
  | literal literal => exact rereadFrom_scalarPieces rfl
  | object body =>
      intro point slot hawaits lastLine position
      rw [Value.pieces]
      split
      next hempty =>
        rw [body.eq_of_isEmpty hempty]
        exact ⟨.object ⟨[], []⟩, ⟨.closeBrace, "\x7d", _, _⟩, .object (.mk (.nil _) []),
          .token (hawaits _ _ rfl) (.token rfl (.nil _))⟩
      next =>
        obtain ⟨opened, lastLine', position', hagain, hmoves⟩ :=
          body.moves_pieces indent (depth + 1) hparts (.object slot)
            ((position.advance "\x7b".toList).line_advance ['\n'])
        exact ⟨.object opened.close, ⟨.closeBrace, "\x7d", _, _⟩, .object hagain,
          .token (hawaits _ _ rfl) (.gap _ (hmoves.append (.gap _ (.token rfl (.nil _)))))⟩
  | list list =>
      intro point slot hawaits lastLine position
      rw [Value.pieces]
      split
      next hempty =>
        rw [list.eq_of_isEmpty hempty]
        exact ⟨.list ⟨[], []⟩, ⟨.closeBracket, "]", _, _⟩, .list (.mk .nil []),
          .token (hawaits _ _ rfl) (.token rfl (.nil _))⟩
      next =>
        split
        next text htext =>
          obtain ⟨hdangling, hscalars⟩ := scalars_of_compactList? htext
          exact moves_compactPieces (fun element helement =>
            ⟨(hscalars element helement).1, (hscalars element helement).2.2⟩) hdangling hawaits
            lastLine position
        next =>
          obtain ⟨opened, lastLine', position', hagain, hmoves⟩ :=
            list.moves_pieces indent (depth + 1) hparts slot
              (position.advance "[".toList).line ((position.advance "[".toList).advance ['\n'])
          exact ⟨.list opened.close, ⟨.closeBracket, "]", _, _⟩, .list hagain,
            .token (hawaits _ _ rfl) (.gap _ (hmoves.append (.gap _ (.token rfl (.nil _)))))⟩

/-- A body is read back from its layout, which starts on a line of its own. -/
theorem Body.moves_pieces (indent depth : Nat) {body : Body}
    (hparts : ∀ part ∈ body.parts, part.Sound) (site : Site) {lastLine : Nat}
    {position : Position} (hline : position.line = lastLine + 1) :
    ∃ opened lastLine' position', body.ReadBack opened.close ∧
      Moves (body.pieces indent depth) ⟨.items site {}, lastLine, position⟩
        ⟨.items site opened, lastLine', position'⟩ := by
  obtain ⟨hitems, hdangling⟩ := Body.forall_parts.mp hparts
  obtain ⟨items, dangling⟩ := body
  have hentries := Layout.rereadFrom_entriesOf indent depth hitems
  have hzip (padded : List Nat) : ∀ entry ∈ (entriesOf indent depth items).zip padded,
      (Part.item entry.1.item).Sound ∧ entry.1.item.value.RereadFrom entry.1.value :=
    fun entry hentry => hentries entry.1 (List.of_mem_zip hentry).1
  obtain ⟨again, body₁, lastLine₁, position₁, hagain, hitems₁, hlead₁, habove₁, hmoves₁⟩ :=
    moves_entriesPieces (not_mem_margin indent depth)
      (hzip (widths ((entriesOf indent depth items).map Entry.row))) site hline
  have hbare : body₁.items = [] ∨
      (entriesOf indent depth items).isEmpty = false ∧ lastLine₁ = position₁.line := by
    refine habove₁.imp_right (And.imp_left fun hne => ?_)
    cases hempty : entriesOf indent depth items with
    | nil => rw [hempty] at hne; cases hne
    | cons entry entries => rfl
  obtain ⟨body₂, lastLine₂, position₂, hitems₂, hlead₂, hmoves₂⟩ :=
    moves_danglingPieces (not_mem_margin indent depth) hdangling site hbare
  refine ⟨body₂, lastLine₂, position₂, ?_, hmoves₁.append hmoves₂⟩
  rw [map_item_zip_widths] at hagain
  rw [OpenBody.close, hitems₂, hitems₁, hlead₂, hlead₁, List.append_nil, List.reverse_reverse,
    List.reverse_reverse]
  exact .mk hagain dangling

theorem Layout.rereadFrom_entriesOf (indent depth : Nat) {items : List Item}
    (hitems : ∀ item ∈ items, ∀ part ∈ item.parts, part.Sound) :
    ∀ entry ∈ entriesOf indent depth items,
      (Part.item entry.item).Sound ∧ entry.item.value.RereadFrom entry.value := by
  cases items with
  | nil => simp [entriesOf]
  | cons item items =>
      obtain ⟨hitem, hitems⟩ := List.forall_mem_cons.mp hitems
      rw [entriesOf, List.forall_mem_cons]
      exact ⟨⟨(Item.forall_parts.mp hitem).1, item.rereadFrom_valuePieces indent depth hitem⟩,
        Layout.rereadFrom_entriesOf indent depth hitems⟩

theorem Item.rereadFrom_valuePieces (indent depth : Nat) {item : Item}
    (hparts : ∀ part ∈ item.parts, part.Sound) :
    item.value.RereadFrom (item.valuePieces indent depth) := by
  obtain ⟨-, -, -, hvalue, -⟩ := Item.forall_parts.mp hparts
  obtain ⟨keys, value, assigned, comments, blankBefore, span⟩ := item
  exact value.rereadFrom_pieces indent depth hvalue

/-- A list that takes several lines is read back from them. -/
theorem ListBody.moves_pieces (indent depth : Nat) {list : ListBody}
    (hparts : ∀ part ∈ list.parts, part.Sound) (slot : Slot) (lastLine : Nat)
    (position : Position) :
    ∃ opened lastLine' position', list.ReadBack opened.close ∧
      Moves (list.pieces indent depth) ⟨.list slot {}, lastLine, position⟩
        ⟨.list slot opened, lastLine', position'⟩ := by
  obtain ⟨helements, -⟩ := ListBody.forall_parts.mp hparts
  obtain ⟨elements, dangling⟩ := list
  have hawaits : OpenList.AwaitsElement {} [] [] position.line := ⟨rfl, rfl, rfl, .inl rfl⟩
  obtain ⟨again, list', lastLine', position', hagain, hawaits, hmoves⟩ :=
    Layout.moves_elementsPieces indent depth helements hawaits slot lastLine
  obtain ⟨opened, lastLine'', position'', hawaits', hmoves'⟩ :=
    hawaits.moves_linesPieces (not_mem_margin indent depth) dangling slot lastLine'
  refine ⟨opened, lastLine'', position'', ?_, hmoves.append hmoves'⟩
  rw [OpenList.close, hawaits'.elements_eq, hawaits'.pending_eq]
  simpa using ListBody.ReadBack.mk hagain dangling

theorem Layout.moves_elementsPieces (indent depth : Nat) {elements : List Element}
    (helements : ∀ element ∈ elements, ∀ part ∈ element.parts, part.Sound) {list : OpenList}
    {before : List Element} {position : Position}
    (hawaits : list.AwaitsElement before [] position.line) (slot : Slot) (lastLine : Nat) :
    ∃ again list' lastLine' position', Element.AllReadBack elements again ∧
      list'.AwaitsElement (again.reverse ++ before) [] position'.line ∧
      Moves (elementsPieces indent depth elements) ⟨.list slot list, lastLine, position⟩
        ⟨.list slot list', lastLine', position'⟩ := by
  cases elements with
  | nil => exact ⟨[], list, lastLine, position, .nil, hawaits, .nil _⟩
  | cons element elements =>
      obtain ⟨helement, hothers⟩ := List.forall_mem_cons.mp helements
      obtain ⟨-, -, hparts, -⟩ := Element.forall_parts.mp helement
      obtain ⟨value, comments⟩ := element
      obtain ⟨first, list₁, lastLine₁, position₁, hfirst, hawaits₁, hmoves₁⟩ :=
        moves_elementPieces (not_mem_margin indent depth)
          (value.rereadFrom_pieces indent depth hparts) comments hawaits slot lastLine
      obtain ⟨again, list₂, lastLine₂, position₂, hagain, hawaits₂, hmoves₂⟩ :=
        Layout.moves_elementsPieces indent depth hothers hawaits₁ slot lastLine₁
      refine ⟨_ :: again, list₂, lastLine₂, position₂, .cons hfirst comments hagain, ?_,
        hmoves₁.append hmoves₂⟩
      rwa [List.reverse_cons, List.append_assoc]

end

end HclEditor
