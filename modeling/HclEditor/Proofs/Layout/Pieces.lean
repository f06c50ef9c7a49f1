import Mathlib
import HclEditor.Proofs.Layout.Runs
import HclEditor.Proofs.Token.Piece

/-!
# The pieces of a laid-out document

Every part of the layout is given once more, as a row of pieces with the same characters.
The tokens among the pieces are the ones the document was made of, with the commas and
braces that the layout adds. A carriage return at the end of a comment is a gap, since no
comment can end with it.
-/

namespace HclEditor

namespace KeyKind

/-- The kind of the tokens that are keys of this kind. -/
def tokenKind : KeyKind → TokenKind
  | .identifier => .identifier
  | .string => .literal .string

end KeyKind

namespace Layout

open Piece

/-- The text without the carriage return at its end, if there is one. -/
def withoutReturn (text : String) : String :=
  if text.toList.getLast? = some '\r' then String.ofList text.toList.dropLast else text

/-- A comment, and the carriage return behind it. -/
def commentPieces (text : String) : List Piece :=
  .token .comment (withoutReturn text) ::
    if text.toList.getLast? = some '\r' then [.gap ['\r']] else []

/-- The comments above an item or at the end of a list. -/
def linesPieces (margin : String) : List String → List Piece
  | [] => []
  | text :: texts =>
      .gap margin.toList :: commentPieces text ++ .gap ['\n'] :: linesPieces margin texts

/-- A comment behind a value. -/
def trailingPieces : Option String → List Piece
  | some comment => .gap [' '] :: commentPieces comment
  | none => []

/-- The token of a key. -/
def keyPiece (key : Key) : Piece :=
  .token key.kind.tokenKind key.text

/-- The keys of an item. -/
def keyPieces (keys : List Key) : List Piece :=
  joined [.gap [' ']] (keys.map fun key => [keyPiece key])

/-- An item of a body, with its value in pieces. -/
structure Entry where
  item : Item
  value : List Piece

namespace Entry

/-- The entry with its value as a text. -/
def row (entry : Entry) : Row :=
  ⟨entry.item, String.ofList (charsOf entry.value)⟩

/-- What stands between the keys of an item and its value. -/
def signPieces (width : Nat) (item : Item) : List Piece :=
  if item.assigned then
    [.gap (List.replicate (width - item.keyPath.length) ' ' ++ [' ']), .token .assign "=",
      .gap [' ']]
  else [.gap [' ']]

/-- An item on its lines. -/
def pieces (margin : String) (width : Nat) (entry : Entry) : List Piece :=
  linesPieces margin entry.item.comments.lead ++ .gap margin.toList ::
    (keyPieces entry.item.keys ++ signPieces width entry.item ++ entry.value ++
      trailingPieces entry.item.comments.line)

end Entry

/-- Items below a given one. -/
def belowPieces (margin : String) (above : Item) : List (Entry × Nat) → List Piece
  | [] => []
  | (entry, width) :: entries =>
      .gap (separator above entry.item).toList ::
        (entry.pieces margin width ++ belowPieces margin entry.item entries)

/-- Items one below the other. -/
def entriesPieces (margin : String) : List (Entry × Nat) → List Piece
  | [] => []
  | (entry, width) :: entries =>
      entry.pieces margin width ++ belowPieces margin entry.item entries

/-- Dangling comments, below something unless it is `bare`. -/
def danglingPieces (margin : String) (bare : Bool) : List String → List Piece
  | [] => []
  | comment :: comments =>
      .gap ((if bare then [] else ['\n']) ++ margin.toList) :: (commentPieces comment ++
        danglingPieces margin (bare && margin.isEmpty && comment.isEmpty) comments)

/-- The items of a body and its dangling comments. -/
def bodyPieces (margin : String) (entries : List Entry) (dangling : List String) :
    List Piece :=
  entriesPieces margin (entries.zip (widths (entries.map Entry.row))) ++
    danglingPieces margin entries.isEmpty dangling

/-- The token of a scalar. -/
def scalarPieces : Value → List Piece
  | .literal literal => [.token (.literal literal.kind) literal.text]
  | _ => []

/-- A list on a single line. -/
def compactPieces (list : ListBody) : List Piece :=
  .token .openBracket "[" ::
    (joined [.token .comma ",", .gap [' ']]
      (list.elements.map fun element => scalarPieces element.value) ++
      [.token .closeBracket "]"])

/-- An element of a list that takes several lines. -/
def elementPieces (margin : String) (value : List Piece) (comments : Comments) : List Piece :=
  linesPieces margin comments.lead ++ .gap margin.toList ::
    (value ++ .token .comma "," :: (trailingPieces comments.line ++ [.gap ['\n']]))

end Layout

open Layout in
mutual

/-- The pieces of a value at a depth. -/
def Value.pieces (indent depth : Nat) : Value → List Piece
  | .literal literal => [.token (.literal literal.kind) literal.text]
  | .object body =>
      if body.isEmpty then [.token .openBrace "\x7b", .token .closeBrace "\x7d"]
      else
        .token .openBrace "\x7b" :: .gap ['\n'] :: (body.pieces indent (depth + 1) ++
          [.gap ('\n' :: (margin indent depth).toList), .token .closeBrace "\x7d"])
  | .list list =>
      if list.isEmpty then [.token .openBracket "[", .token .closeBracket "]"]
      else
        match compactList? list with
        | some _ => compactPieces list
        | none =>
            .token .openBracket "[" :: .gap ['\n'] :: (list.pieces indent (depth + 1) ++
              [.gap (margin indent depth).toList, .token .closeBracket "]"])

/-- The pieces of a body at a depth. -/
def Body.pieces (indent depth : Nat) : Body → List Piece
  | ⟨items, dangling⟩ => bodyPieces (margin indent depth) (Layout.entriesOf indent depth items)
      dangling

/-- The items with the pieces of their values at a depth. -/
def Layout.entriesOf (indent depth : Nat) : List Item → List Layout.Entry
  | [] => []
  | item :: items => ⟨item, item.valuePieces indent depth⟩ :: Layout.entriesOf indent depth items

/-- The pieces of an item's value at a depth. -/
def Item.valuePieces (indent depth : Nat) : Item → List Piece
  | ⟨_, value, _, _, _, _⟩ => value.pieces indent depth

/-- The pieces of the elements of a list and of its dangling comments. -/
def ListBody.pieces (indent depth : Nat) : ListBody → List Piece
  | ⟨elements, dangling⟩ =>
      Layout.elementsPieces indent depth elements ++ linesPieces (margin indent depth) dangling

/-- The pieces of the elements of a list. -/
def Layout.elementsPieces (indent depth : Nat) : List Element → List Piece
  | [] => []
  | ⟨value, comments⟩ :: elements =>
      elementPieces (margin indent depth) (value.pieces indent depth) comments ++
        Layout.elementsPieces indent depth elements

end

namespace Layout

open Piece

theorem charsOf_commentPieces (text : String) : charsOf (commentPieces text) = text.toList := by
  rw [commentPieces, withoutReturn]
  split
  next hlast =>
    simp [List.dropLast_append_getLast? _ hlast]
  next => simp

theorem charsOf_linesPieces (margin : String) (texts : List String) :
    charsOf (linesPieces margin texts) = (lines margin texts).toList := by
  induction texts with
  | nil => rfl
  | cons text texts ih => simp [linesPieces, lines, charsOf_commentPieces, ih]

theorem charsOf_trailingPieces (comment : Option String) :
    charsOf (trailingPieces comment) = (trailing comment).toList := by
  cases comment <;> simp [trailingPieces, trailing, charsOf_commentPieces]

theorem charsOf_keyPieces (item : Item) :
    charsOf (keyPieces item.keys) = item.keyPath.toList := by
  have htexts : (item.keys.map fun key => [keyPiece key]).map charsOf =
      (item.keys.map Key.text).map String.toList := by
    simp [keyPiece]
  rw [keyPieces, charsOf_joined, Item.keyPath, String.toList_intercalate, htexts]
  rfl

theorem charsOf_head (width : Nat) (item : Item) :
    charsOf (keyPieces item.keys ++ Entry.signPieces width item) =
      (if item.assigned then pad width item.keyPath ++ " = " else item.keyPath ++ " ").toList := by
  rw [charsOf_append, charsOf_keyPieces, Entry.signPieces]
  split <;> simp [pad, spaces]

theorem Entry.charsOf_pieces (margin : String) (width : Nat) (entry : Entry) :
    charsOf (entry.pieces margin width) = (entry.row.layout margin width).toList := by
  obtain ⟨item, value⟩ := entry
  have hrow : Entry.row ⟨item, value⟩ = ⟨item, String.ofList (charsOf value)⟩ := rfl
  rw [hrow, Row.layout, Entry.pieces, charsOf_append, charsOf_gap, charsOf_append,
    charsOf_append, charsOf_head, charsOf_linesPieces, charsOf_trailingPieces]
  simp only [String.toList_append, String.toList_ofList, List.append_assoc]

theorem charsOf_belowPieces (margin : String) (above : Item) (entries : List (Entry × Nat)) :
    charsOf (belowPieces margin above entries) =
      (rowsBelow margin above (entries.map fun entry => (entry.1.row, entry.2))).toList := by
  induction entries generalizing above with
  | nil => rfl
  | cons entry entries ih =>
      simp only [belowPieces, charsOf_gap, charsOf_append, Entry.charsOf_pieces, ih,
        List.map_cons, rowsBelow, String.toList_append, List.append_assoc]
      rfl

theorem charsOf_entriesPieces (margin : String) (entries : List (Entry × Nat)) :
    charsOf (entriesPieces margin entries) =
      (rows margin (entries.map fun entry => (entry.1.row, entry.2))).toList := by
  cases entries with
  | nil => rfl
  | cons entry entries =>
      simp only [entriesPieces, charsOf_append, Entry.charsOf_pieces, charsOf_belowPieces,
        List.map_cons, rows, String.toList_append]
      rfl

theorem toList_addDangling (margin text comment : String) :
    (addDangling margin text comment).toList =
      text.toList ++ (if text.isEmpty then [] else ['\n']) ++ margin.toList ++ comment.toList := by
  rw [addDangling]
  split <;> simp_all

theorem isEmpty_append (first second : String) :
    (first ++ second).isEmpty = (first.isEmpty && second.isEmpty) := by
  rw [Bool.eq_iff_iff]
  simp

theorem isEmpty_addDangling (margin text comment : String) :
    (addDangling margin text comment).isEmpty =
      (text.isEmpty && margin.isEmpty && comment.isEmpty) := by
  rw [addDangling]
  split
  next hempty => simp [isEmpty_append, hempty]
  next hempty => simp [isEmpty_append, hempty]

theorem charsOf_danglingPieces (margin text : String) (comments : List String) :
    (comments.foldl (addDangling margin) text).toList =
      text.toList ++ charsOf (danglingPieces margin text.isEmpty comments) := by
  induction comments generalizing text with
  | nil => simp [danglingPieces]
  | cons comment comments ih =>
      rw [List.foldl_cons, ih, isEmpty_addDangling, toList_addDangling]
      simp [danglingPieces, charsOf_commentPieces]

/-- Dangling comments stand below a text that is not empty, whatever it is. -/
theorem exists_foldl_addDangling (margin : String) (comments : List String) :
    ∃ below, ∀ text : String, text.isEmpty = false → comments.foldl (addDangling margin) text = text ++ below := by
  refine ⟨String.ofList (charsOf (danglingPieces margin false comments)), fun text htext => ?_⟩
  apply String.ext
  rw [charsOf_danglingPieces, htext, String.toList_append, String.toList_ofList]

theorem rowsOf_eq_map (indent depth : Nat) (items : List Item) :
    rowsOf indent depth items = items.map fun item => ⟨item, item.valueLayout indent depth⟩ := by
  induction items with
  | nil => rfl
  | cons item items ih => rw [rowsOf, ih, List.map_cons]

/-- Every row holds at least the space in front of the value. -/
theorem isEmpty_rows (margin : String) (entries : List (Row × Nat)) :
    (rows margin entries).isEmpty = entries.isEmpty := by
  cases entries with
  | nil => rfl
  | cons entry entries =>
      obtain ⟨row, width⟩ := entry
      have hsign : (if row.item.assigned then pad width row.item.keyPath ++ " = "
          else row.item.keyPath ++ " ").isEmpty = false := by
        split <;> simp [isEmpty_append]
      simp [rows, Row.layout, isEmpty_append, hsign]

theorem charsOf_bodyPieces (margin : String) (entries : List Entry) (dangling : List String) :
    charsOf (bodyPieces margin entries dangling) =
      (body margin (entries.map Entry.row) dangling).toList := by
  obtain ⟨widths', hwidths⟩ : ∃ widths', widths' = widths (entries.map Entry.row) := ⟨_, rfl⟩
  have hrows : (entries.zip widths').map (fun entry => (entry.1.row, entry.2)) =
      (entries.map Entry.row).zip widths' := by
    rw [List.zip_map_left]
    rfl
  have hbare : (entries.zip widths').isEmpty = entries.isEmpty := by
    have hlength := length_widths (entries.map Entry.row)
    rw [← hwidths, List.length_map] at hlength
    cases entries with
    | nil => rfl
    | cons entry entries =>
        obtain ⟨width, more, rfl⟩ := List.exists_cons_of_length_eq_add_one hlength
        rfl
  rw [bodyPieces, body, ← hwidths, charsOf_append, charsOf_entriesPieces, hrows,
    charsOf_danglingPieces, isEmpty_rows, ← hrows, List.isEmpty_map, hbare]

/-- A scalar in a compact list is not a heredoc. -/
theorem compactText?_eq_some {value : Value} {text : String}
    (htext : compactText? value = some text) :
    ∃ kind, value = .literal ⟨kind, text⟩ ∧ kind ≠ .heredoc := by
  unfold compactText? at htext
  split at htext
  next => cases htext
  next literal hheredoc =>
    cases htext
    exact ⟨literal.kind, rfl, fun heq => hheredoc _ (by rw [← heq])⟩
  next => cases htext

/-- A list on a single line has no comments and holds scalars only. -/
theorem compactList?_eq_some {list : ListBody} {text : String}
    (htext : compactList? list = some text) :
    list.hasComments = false ∧ ∃ texts,
      list.elements.mapM (fun element => compactText? element.value) = some texts ∧
      text = "[" ++ ", ".intercalate texts ++ "]" := by
  unfold compactList? at htext
  split at htext
  next => cases htext
  next hcomments =>
    obtain ⟨texts, htexts, hwidth⟩ := Option.bind_eq_some_iff.mp htext
    dsimp only at hwidth
    split at hwidth
    next =>
      cases hwidth
      exact ⟨by simpa using hcomments, texts, htexts, rfl⟩
    next => cases hwidth

theorem exists_compactText? {elements : List Element} {texts : List String}
    (htexts : elements.mapM (fun element => compactText? element.value) = some texts) :
    ∀ element ∈ elements, ∃ text, compactText? element.value = some text := by
  induction elements generalizing texts with
  | nil => simp
  | cons element elements ih =>
      rw [List.mapM_cons] at htexts
      obtain ⟨text, htext, hmore⟩ := Option.bind_eq_some_iff.mp htexts
      obtain ⟨more, hothers, -⟩ := Option.bind_eq_some_iff.mp hmore
      exact List.forall_mem_cons.mpr ⟨⟨text, htext⟩, ih hothers⟩

theorem map_scalarPieces {elements : List Element} {texts : List String}
    (htexts : elements.mapM (fun element => compactText? element.value) = some texts) :
    (elements.map fun element => scalarPieces element.value).map charsOf =
      texts.map String.toList := by
  induction elements generalizing texts with
  | nil =>
      cases htexts
      rfl
  | cons element elements ih =>
      rw [List.mapM_cons] at htexts
      obtain ⟨text, htext, hmore⟩ := Option.bind_eq_some_iff.mp htexts
      obtain ⟨more, hothers, hcons⟩ := Option.bind_eq_some_iff.mp hmore
      cases hcons
      obtain ⟨kind, hvalue, -⟩ := compactText?_eq_some htext
      simp [hvalue, scalarPieces, ← ih hothers]

theorem charsOf_compactPieces {list : ListBody} {text : String}
    (htext : compactList? list = some text) : charsOf (compactPieces list) = text.toList := by
  obtain ⟨-, texts, htexts, rfl⟩ := compactList?_eq_some htext
  rw [compactPieces, charsOf_token, charsOf_append, charsOf_joined, map_scalarPieces htexts,
    String.toList_append, String.toList_append, String.toList_intercalate]
  rfl

end Layout

open Layout Piece in
mutual

theorem Value.charsOf_pieces (indent depth : Nat) (value : Value) :
    charsOf (value.pieces indent depth) = (value.layout indent depth).toList := by
  cases value with
  | literal literal => simp [Value.pieces, Value.layout]
  | object body =>
      have hbody := body.charsOf_pieces indent (depth + 1)
      rw [Value.pieces, Value.layout]
      split
      · rfl
      · simp [hbody]
  | list list =>
      have hlist := list.charsOf_pieces indent (depth + 1)
      rw [Value.pieces, Value.layout]
      split
      · rfl
      · cases htext : compactList? list with
        | some text => exact charsOf_compactPieces htext
        | none => simp [hlist]

theorem Body.charsOf_pieces (indent depth : Nat) (body : Body) :
    charsOf (body.pieces indent depth) = (body.layout indent depth).toList := by
  obtain ⟨items, dangling⟩ := body
  rw [Body.pieces, Body.layout, charsOf_bodyPieces, Layout.entriesOf_map_row]

theorem Layout.entriesOf_map_row (indent depth : Nat) (items : List Item) :
    (entriesOf indent depth items).map Entry.row = rowsOf indent depth items := by
  cases items with
  | nil => rfl
  | cons item items =>
      rw [entriesOf, rowsOf, List.map_cons, Layout.entriesOf_map_row indent depth items,
        Entry.row, item.charsOf_valuePieces, String.ofList_toList]

theorem Item.charsOf_valuePieces (indent depth : Nat) (item : Item) :
    charsOf (item.valuePieces indent depth) = (item.valueLayout indent depth).toList := by
  obtain ⟨keys, value, assigned, comments, blankBefore, span⟩ := item
  exact value.charsOf_pieces indent depth

theorem ListBody.charsOf_pieces (indent depth : Nat) (list : ListBody) :
    charsOf (list.pieces indent depth) = (list.layout indent depth).toList := by
  obtain ⟨elements, dangling⟩ := list
  rw [ListBody.pieces, ListBody.layout, charsOf_append, Layout.charsOf_elementsPieces,
    charsOf_linesPieces, String.toList_append]

theorem Layout.charsOf_elementsPieces (indent depth : Nat) (elements : List Element) :
    charsOf (elementsPieces indent depth elements) =
      (elementsOf indent depth elements).toList := by
  cases elements with
  | nil => rfl
  | cons element elements =>
      obtain ⟨value, comments⟩ := element
      have hvalue := value.charsOf_pieces indent depth
      have helements := Layout.charsOf_elementsPieces indent depth elements
      simp [elementsPieces, elementsOf, elementPieces, Layout.element, hvalue, helements,
        charsOf_linesPieces, charsOf_trailingPieces]

end

namespace Layout

theorem entriesOf_map_item (indent depth : Nat) (items : List Item) :
    (entriesOf indent depth items).map Entry.item = items := by
  induction items with
  | nil => rfl
  | cons item items ih => rw [entriesOf, List.map_cons, ih]

/-- No item is lost when the entries are given their widths. -/
theorem map_item_zip_widths (indent depth : Nat) (items : List Item) :
    ((entriesOf indent depth items).zip
      (widths ((entriesOf indent depth items).map Entry.row))).map (·.1.item) = items := by
  have hlength := length_widths ((entriesOf indent depth items).map Entry.row)
  rw [List.length_map] at hlength
  calc
    _ = (((entriesOf indent depth items).zip
          (widths ((entriesOf indent depth items).map Entry.row))).map Prod.fst).map Entry.item :=
        (List.map_map ..).symm
    _ = items := by rw [List.map_fst_zip hlength.ge, entriesOf_map_item]

end Layout

end HclEditor
