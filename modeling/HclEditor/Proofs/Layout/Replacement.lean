import Mathlib
import HclEditor.Proofs.Document.Editing
import HclEditor.Proofs.Layout.Stable
import HclEditor.Proofs.Query.Reading

/-!
# Layouts of documents in which values are set

Scalars that are set on a line of their own are all that changes in a layout. Neither the
width of a column nor a blank line nor the form of a list depends on their texts: an item
that holds such a scalar can be aligned before and after, and a list of which the scalars
are set has objects in it, so that it takes several lines before and after.
-/

namespace HclEditor

/-- The text of the literal takes a single line. -/
def Literal.SingleLine (literal : Literal) : Prop :=
  '\n' ∉ literal.text.toList

instance (literal : Literal) : Decidable literal.SingleLine :=
  inferInstanceAs (Decidable ('\n' ∉ literal.text.toList))

/-- The texts of the scalars that the items hold. -/
def Item.scalarTexts (items : List Item) : List String :=
  (items.filterMap Item.scalar?).map Literal.text

theorem Item.scalarTexts_append (first second : List Item) :
    scalarTexts (first ++ second) = scalarTexts first ++ scalarTexts second := by
  rw [scalarTexts, List.filterMap_append, List.map_append]
  rfl

namespace Layout

/-- The first text, the first value, the second text, the second value and so on. -/
def interleaved : List String → List String → String
  | text :: texts, value :: values => text ++ value ++ interleaved texts values
  | text :: _, [] => text
  | [], _ => ""

/-- Texts between values are joined to texts between further values by joining the last one
to the first one. -/
theorem exists_interleaved_append {count : Nat} {first second : List String}
    (hfirst : first.length = count + 1) (hsecond : second ≠ []) :
    ∃ texts, texts.length = count + second.length ∧
      ∀ values others, values.length = count →
        interleaved texts (values ++ others) =
          interleaved first values ++ interleaved second others := by
  induction count generalizing first with
  | zero =>
      obtain ⟨last, rfl⟩ := List.length_eq_one_iff.mp hfirst
      obtain ⟨next, more, rfl⟩ := List.exists_cons_of_ne_nil hsecond
      refine ⟨(last ++ next) :: more, (Nat.zero_add _).symm, ?_⟩
      intro values others hvalues
      obtain rfl := List.length_eq_zero_iff.mp hvalues
      cases others with
      | nil => rfl
      | cons other others => simp only [List.nil_append, interleaved, String.append_assoc]
  | succ count ih =>
      obtain ⟨text, first, rfl⟩ := List.exists_cons_of_length_eq_add_one hfirst
      obtain ⟨texts, hlength, htexts⟩ := ih (Nat.succ.inj hfirst)
      refine ⟨text :: texts, by rw [List.length_cons, hlength]; omega, ?_⟩
      intro values others hvalues
      obtain ⟨value, values, rfl⟩ := List.exists_cons_of_length_eq_add_one hvalues
      rw [List.cons_append, interleaved, interleaved, htexts values others (Nat.succ.inj hvalues),
        String.append_assoc, String.append_assoc, String.append_assoc]

/-- The text has the values in it, and all that changes with a literal that takes a single
line is that the literal stands in place of each of them. -/
def ChangesOnly (values : List String) (text : String) (changed : Literal → String) : Prop :=
  ∃ texts, texts.length = values.length + 1 ∧ text = interleaved texts values ∧
    ∀ literal : Literal, literal.SingleLine →
      changed literal = interleaved texts (List.replicate values.length literal.text)

namespace ChangesOnly

variable {values others : List String} {text : String} {changed again : Literal → String}

theorem congr (hchanges : ChangesOnly values text changed)
    (hagain : ∀ literal : Literal, literal.SingleLine → again literal = changed literal) :
    ChangesOnly values text again := by
  obtain ⟨texts, hlength, htext, hchanged⟩ := hchanges
  refine ⟨texts, hlength, htext, ?_⟩
  intro literal hline
  rw [hagain literal hline, hchanged literal hline]

/-- A text without values does not change. -/
theorem constant (text : String) : ChangesOnly [] text fun _ => text :=
  ⟨[text], rfl, rfl, fun _ _ => rfl⟩

/-- The text of a literal is all of it a value. -/
theorem scalar (text : String) : ChangesOnly [text] text Literal.text := by
  refine ⟨["", ""], rfl, ?_, fun literal _ => ?_⟩
  · simp [interleaved]
  · simp [interleaved]

theorem append {other : String} {changedOther : Literal → String}
    (hfirst : ChangesOnly values text changed) (hsecond : ChangesOnly others other changedOther) :
    ChangesOnly (values ++ others) (text ++ other)
      fun literal => changed literal ++ changedOther literal := by
  obtain ⟨first, hlength, rfl, hchanged⟩ := hfirst
  obtain ⟨second, hlength', rfl, hchanged'⟩ := hsecond
  have hne : second ≠ [] := List.ne_nil_of_length_eq_add_one hlength'
  obtain ⟨texts, htexts, hinterleaved⟩ := exists_interleaved_append hlength hne
  refine ⟨texts, ?_, (hinterleaved values others rfl).symm, ?_⟩
  · rw [htexts, hlength', List.length_append, Nat.add_assoc]
  · intro literal hline
    dsimp only
    rw [hchanged literal hline, hchanged' literal hline, List.length_append,
      ← List.replicate_append_replicate, hinterleaved _ _ List.length_replicate]

/-- What stands around a text stays there. -/
theorem surround (hchanges : ChangesOnly values text changed) (front behind : String) :
    ChangesOnly values (front ++ text ++ behind)
      fun literal => front ++ changed literal ++ behind := by
  have hall := ((constant front).append hchanges).append (constant behind)
  rwa [List.nil_append, List.append_nil] at hall

end ChangesOnly

namespace Row

/-- What the width of a row's column depends on. -/
def measure (row : Row) : Bool × Bool × Nat :=
  (row.alignable, row.item.blankBefore, row.keyWidth)

/-- The row is laid out like the other, except for its value. -/
structure Matches (row again : Row) : Prop where
  keys : again.item.keys = row.item.keys
  assigned : again.item.assigned = row.item.assigned
  comments : again.item.comments = row.item.comments
  blankBefore : again.item.blankBefore = row.item.blankBefore
  isObject : again.item.value.isObject = row.item.value.isObject
  alignable : again.alignable = row.alignable

theorem Matches.measure_eq {row again : Row} (hmatches : row.Matches again) :
    again.measure = row.measure := by
  rw [measure, measure, hmatches.alignable, hmatches.blankBefore, keyWidth, keyWidth,
    Item.keyPath, Item.keyPath, hmatches.keys]

end Row

/-- The widths of columns depend on nothing else. -/
theorem keepsRuns_measure :
    KeepsRuns fun rows others => others.map Row.measure = rows.map Row.measure where
  nil hmeasures := List.map_eq_nil_iff.mp hmeasures
  cons := by
    intro row rows others hmeasures
    obtain ⟨again, below, rfl, hrow, hrows⟩ := List.map_eq_cons_iff.mp hmeasures
    refine ⟨again, below, rfl, congrArg (·.1) hrow, congrArg (·.2.2) hrow, ?_⟩
    intro _
    have hcontinues : Row.continuesRun =
        (fun measure : Bool × Bool × Nat => measure.1 && !measure.2.1) ∘ Row.measure := rfl
    have hrun : (below.takeWhile Row.continuesRun).map Row.measure =
        (rows.takeWhile Row.continuesRun).map Row.measure := by
      rw [hcontinues, ← List.takeWhile_map, ← List.takeWhile_map, hrows]
    have hkeys := congrArg (List.map (·.2.2)) hrun
    rwa [List.map_map, List.map_map] at hkeys
  drop := by
    intro rows others hmeasures n
    rw [List.map_drop, List.map_drop, hmeasures]

/-- Below the rows of a body the dangling comments do not depend on what the rows are. -/
theorem exists_body_cons (margin : String) (dangling : List String) :
    ∃ below, ∀ {row : Row} {others : List Row} {width : Nat} {padded : List Nat},
      widths (row :: others) = width :: padded →
        body margin (row :: others) dangling =
          row.layout margin width ++ rowsBelow margin row.item (others.zip padded) ++ below := by
  obtain ⟨below, hbelow⟩ := exists_foldl_addDangling margin dangling
  refine ⟨below, ?_⟩
  intro row others width padded hwidths
  rw [body, hwidths, List.zip_cons_cons, hbelow _ (by rw [isEmpty_rows]; rfl), rows]

theorem changesOnly_row {values : List String} {text : String} {changed : Literal → String}
    {item : Item} {again : Literal → Item} (hchanges : ChangesOnly values text changed)
    (hmatches : ∀ literal : Literal, literal.SingleLine →
      Row.Matches ⟨item, text⟩ ⟨again literal, changed literal⟩) (margin : String) (width : Nat) :
    ChangesOnly values (Row.layout margin width ⟨item, text⟩)
      fun literal => Row.layout margin width ⟨again literal, changed literal⟩ := by
  refine (hchanges.surround _ _).congr ?_
  intro literal hline
  obtain ⟨hkeys, hassigned, hcomments, -, -, -⟩ := hmatches literal hline
  dsimp only at hkeys hassigned hcomments
  rw [Row.layout, Item.keyPath, hkeys, hassigned, hcomments]
  rfl

end Layout

open Layout

/-- What setting values that a query addresses does to an item of a body: its row changes in
these values only. -/
structure Item.ChangesRow (query : Query) (indent depth : Nat) (item : Item) : Prop where
  text : ChangesOnly (scalarTexts (item.addressed query)) (item.valueLayout indent depth)
    fun literal => (item.replaced query literal).valueLayout indent depth
  alike : ∀ literal : Literal, literal.SingleLine →
    Row.Matches ⟨item, item.valueLayout indent depth⟩
      ⟨item.replaced query literal, (item.replaced query literal).valueLayout indent depth⟩

namespace Layout

variable {query : Query} {indent depth : Nat} {items : List Item}

theorem map_measure_replacedAmong (hitems : ∀ item ∈ items, item.ChangesRow query indent depth)
    {literal : Literal} (hline : literal.SingleLine) :
    (rowsOf indent depth (query.replacedAmong literal items)).map Row.measure =
      (rowsOf indent depth items).map Row.measure := by
  induction items with
  | nil => rfl
  | cons item items ih =>
      obtain ⟨hitem, hitems⟩ := List.forall_mem_cons.mp hitems
      rw [Query.replacedAmong, rowsOf, rowsOf, List.map_cons, List.map_cons, ih hitems,
        (hitem.alike literal hline).measure_eq]

theorem length_rowsOf (items : List Item) :
    (rowsOf indent depth items).length = items.length := by
  rw [rowsOf_eq_map, List.length_map]

theorem changesOnly_rowsBelow (hitems : ∀ item ∈ items, item.ChangesRow query indent depth)
    (margin : String) {above : Item} {again : Literal → Item}
    (habove : ∀ literal : Literal, literal.SingleLine →
      (again literal).value.isObject = above.value.isObject)
    {padded : List Nat} (hpadded : padded.length = items.length) :
    ChangesOnly (Item.scalarTexts (query.addressedAmong items))
      (rowsBelow margin above ((rowsOf indent depth items).zip padded))
      fun literal => rowsBelow margin (again literal)
        ((rowsOf indent depth (query.replacedAmong literal items)).zip padded) := by
  induction items generalizing above again padded with
  | nil => exact .constant ""
  | cons item items ih =>
      obtain ⟨hitem, hitems⟩ := List.forall_mem_cons.mp hitems
      obtain ⟨width, padded, rfl⟩ := List.exists_cons_of_length_eq_add_one hpadded
      have hrow := changesOnly_row hitem.text hitem.alike margin width
      have hbelow := ih hitems (fun literal hline => (hitem.alike literal hline).isObject)
        (Nat.succ.inj hpadded)
      rw [Query.addressedAmong, Item.scalarTexts_append]
      refine (((ChangesOnly.constant (separator above item)).append hrow).append hbelow).congr ?_
      intro literal hline
      have hseparator : separator (again literal) (item.replaced query literal) =
          separator above item := by
        rw [separator, separator, habove literal hline, (hitem.alike literal hline).blankBefore,
          (hitem.alike literal hline).isObject]
      rw [Query.replacedAmong, rowsOf, List.zip_cons_cons, rowsBelow, hseparator]

/-- The body of a document or an object changes in the values of its items only. -/
theorem changesOnly_body (hitems : ∀ item ∈ items, item.ChangesRow query indent depth)
    (margin : String) (dangling : List String) :
    ChangesOnly (Item.scalarTexts (query.addressedAmong items))
      (body margin (rowsOf indent depth items) dangling)
      fun literal => body margin (rowsOf indent depth (query.replacedAmong literal items))
        dangling := by
  cases items with
  | nil => exact .constant _
  | cons item items =>
      have hlength := length_widths (rowsOf indent depth (item :: items))
      rw [length_rowsOf] at hlength
      obtain ⟨width, padded, hwidths⟩ := List.exists_cons_of_length_eq_add_one hlength
      rw [hwidths] at hlength
      obtain ⟨below, hbody⟩ := exists_body_cons margin dangling
      obtain ⟨hitem, hothers⟩ := List.forall_mem_cons.mp hitems
      have hrow := changesOnly_row hitem.text hitem.alike margin width
      have hrows := changesOnly_rowsBelow hothers margin
        (fun literal hline => (hitem.alike literal hline).isObject) (Nat.succ.inj hlength)
      have hall := (hrow.append hrows).append (.constant below)
      rw [List.append_nil, ← Item.scalarTexts_append, ← Query.addressedAmong] at hall
      rw [rowsOf, hbody hwidths]
      refine hall.congr ?_
      intro literal hline
      have hagain := keepsRuns_measure.widths_eq (map_measure_replacedAmong hitems hline)
      rw [Query.replacedAmong, rowsOf] at hagain ⊢
      rw [hbody (hagain.trans hwidths)]

end Layout

/-- The item holds a heredoc, or another scalar that takes a single line. -/
def Item.HoldsLine (item : Item) : Prop :=
  ∃ scalar ∈ item.scalar?, scalar.kind = .heredoc ∨ scalar.SingleLine

instance (item : Item) : Decidable item.HoldsLine :=
  inferInstanceAs (Decidable (∃ scalar ∈ item.scalar?, scalar.kind = .heredoc ∨ scalar.SingleLine))

theorem Item.valueLayout_eq (indent depth : Nat) (item : Item) :
    item.valueLayout indent depth = item.value.layout indent depth := by
  cases item
  rfl

/-- A heredoc behind `=` may be aligned whatever its text is, any other scalar if it takes a
single line. -/
theorem Layout.Row.alignable_scalar {item : Item} {scalar : Literal}
    (hvalue : item.value = .literal scalar) (hassigned : item.assigned = true)
    (hscalar : scalar.kind = .heredoc ∨ scalar.SingleLine) :
    Row.alignable ⟨item, scalar.text⟩ = true := by
  obtain ⟨kind, text⟩ := scalar
  rw [alignable, hvalue, hassigned]
  rcases hscalar with hheredoc | hline
  · cases hheredoc
    rfl
  · have hcontains : text.toList.contains '\n' = false := by
      simpa [Literal.SingleLine] using hline
    cases kind with
    | heredoc => rfl
    | _ => exact congrArg (fun breaks => true && !breaks) hcontains

/-- What an object's body stands between. -/
theorem Value.layout_object {body : Body} (hempty : body.isEmpty = false) (indent depth : Nat) :
    (Value.object body).layout indent depth =
      "\x7b\n" ++ body.layout indent (depth + 1) ++
        ("\n" ++ margin indent depth ++ "\x7d") := by
  rw [Value.layout, hempty]
  simp only [Bool.false_eq_true, if_false, String.append_assoc]

/-- What the elements of a list that takes several lines stand between. -/
theorem Value.layout_list {list : ListBody} (htext : compactList? list = none)
    (indent depth : Nat) :
    (Value.list list).layout indent depth =
      "[\n" ++ list.layout indent (depth + 1) ++ (margin indent depth ++ "]") := by
  have hempty : list.isEmpty = false := by
    rw [Bool.eq_false_iff]
    intro hempty
    rw [ListBody.eq_of_isEmpty hempty] at htext
    cases htext
  rw [Value.layout, hempty, htext]
  simp only [Bool.false_eq_true, if_false, String.append_assoc]

/-- What the value of a list element stands between. -/
theorem Layout.element_eq (margin text : String) (comments : Comments) :
    element margin text comments =
      lines margin comments.lead ++ margin ++ text ++
        ("," ++ trailing comments.line ++ "\n") := by
  simp only [element, String.append_assoc]

namespace Body

theorem isEmpty_replaced (query : Query) (literal : Literal) (body : Body) :
    (body.replaced query literal).isEmpty = body.isEmpty := by
  obtain ⟨items, dangling⟩ := body
  rw [replaced, isEmpty, Query.replacedAmong_eq, List.isEmpty_map]
  rfl

end Body

namespace ListBody

theorem isEmpty_replaced (query : Query) (literal : Literal) (list : ListBody) :
    (list.replaced query literal).isEmpty = list.isEmpty := by
  obtain ⟨elements, dangling⟩ := list
  rw [replaced, isEmpty, Query.replacedWithin_eq, List.isEmpty_map]
  rfl

/-- Setting values changes no scalar that is itself an element of the list. -/
theorem compactList?_replaced (query : Query) (literal : Literal) (list : ListBody) :
    compactList? (list.replaced query literal) = compactList? list := by
  obtain ⟨elements, dangling⟩ := list
  rw [replaced, Query.replacedWithin_eq]
  refine compactList?_congr ?_ ?_ rfl
  · rw [List.map_map]
    apply List.map_congr_left
    intro element _
    obtain ⟨value, comments⟩ := element
    cases value <;> rfl
  · rw [List.map_map]
    rfl

/-- A list that fits on a line holds no items. -/
theorem addressed_of_compactList? {list : ListBody} {text : String}
    (htext : compactList? list = some text) (query : Query) : list.addressed query = [] := by
  obtain ⟨-, helements⟩ := scalars_of_compactList? htext
  obtain ⟨elements, dangling⟩ := list
  rw [addressed, Query.addressedWithin_eq, List.flatMap_eq_nil_iff]
  intro element helement
  obtain ⟨hliteral, -, -⟩ := helements element helement
  cases hvalue : element.value with
  | literal scalar => rfl
  | _ =>
      rw [hvalue] at hliteral
      cases hliteral

/-- A list takes a single line exactly if it did before. -/
theorem contains_newline_replaced (query : Query) (literal : Literal) (indent depth : Nat)
    (list : ListBody) :
    ((Value.list (list.replaced query literal)).layout indent depth).toList.contains '\n' =
      ((Value.list list).layout indent depth).toList.contains '\n' := by
  rw [Value.layout, Value.layout, isEmpty_replaced, compactList?_replaced]
  split
  · rfl
  · cases compactList? list with
    | some text => rfl
    | none => simp

end ListBody

namespace Item

variable {query inner : Query} {indent depth : Nat} {item : Item}

/-- The value of an addressed item is all that changes in its row. -/
theorem changesRow_of_addressed (hinside : query.inside item = none)
    (hassigned : item.assigned = true) (hholds : item.HoldsLine) :
    item.ChangesRow query indent depth := by
  obtain ⟨scalar, hitem, hscalar⟩ := hholds
  have hvalue := value_of_scalar? hitem
  have haddressed : item.addressed query = [item] := by rw [addressed_eq, hinside]
  have hreplaced (literal : Literal) : item.replaced query literal =
      { item with value := .literal literal, assigned := true } := by
    rw [replaced_eq, hinside]
    exact withValue_literal item literal
  have htexts : scalarTexts [item] = [scalar.text] := by simp [scalarTexts, scalar?, hvalue]
  have hlayout : item.valueLayout indent depth = scalar.text := by
    rw [valueLayout_eq, hvalue, Value.layout]
  constructor
  · rw [haddressed, htexts, hlayout]
    refine (ChangesOnly.scalar scalar.text).congr ?_
    intro literal _
    rw [hreplaced, valueLayout, Value.layout]
  · intro literal hline
    rw [hlayout, hreplaced, valueLayout, Value.layout]
    refine ⟨rfl, hassigned.symm, rfl, rfl, by rw [hvalue]; rfl, ?_⟩
    rw [Row.alignable_scalar hvalue hassigned hscalar,
      Row.alignable_scalar rfl rfl (.inr hline)]

/-- The row of an item that is not addressed changes inside its value. -/
theorem changesRow_of_inside (hinside : query.inside item = some inner)
    (hchanges : ChangesOnly (scalarTexts (item.value.addressed inner))
      (item.value.layout indent depth)
      fun literal => (item.value.replaced inner literal).layout indent depth) :
    item.ChangesRow query indent depth := by
  have haddressed : item.addressed query = item.value.addressed inner := by
    rw [addressed_eq, hinside]
  have hreplaced (literal : Literal) : item.replaced query literal =
      { item with value := item.value.replaced inner literal } := by
    rw [replaced_eq, hinside]
  constructor
  · rw [haddressed, valueLayout_eq]
    refine hchanges.congr ?_
    intro literal _
    rw [hreplaced, valueLayout]
  · intro literal _
    have hshell := item.value.shell_replaced inner literal
    rw [hreplaced, valueLayout_eq, valueLayout]
    refine ⟨rfl, rfl, rfl, rfl, Value.isObject_eq_of_shell_eq hshell, ?_⟩
    cases hvalue : item.value with
    | literal scalar => simp only [Row.alignable, Value.replaced, hvalue]
    | object body => simp only [Row.alignable, Value.replaced, hvalue]
    | list list =>
        have hbreaks := list.contains_newline_replaced inner literal indent depth
        simp only [Row.alignable, Value.replaced, hvalue, hbreaks]

end Item

mutual

/-- Where a query addresses scalars that take a line of their own, a value changes in these
only. -/
theorem Value.changesOnly_layout (query : Query) (indent depth : Nat) {value : Value}
    (hholds : ∀ entry ∈ value.addressed query, entry.assigned = true ∧ entry.HoldsLine) :
    ChangesOnly (Item.scalarTexts (value.addressed query)) (value.layout indent depth)
      fun literal => (value.replaced query literal).layout indent depth := by
  cases value with
  | literal scalar => exact .constant scalar.text
  | object body =>
      have hbody := body.changesOnly_layout query indent (depth + 1) hholds
      cases hempty : body.isEmpty with
      | true =>
          obtain rfl := Body.eq_of_isEmpty hempty
          exact .constant "\x7b\x7d"
      | false =>
          rw [Value.addressed, Value.layout_object hempty]
          refine (hbody.surround _ _).congr ?_
          intro literal _
          have hagain := (body.isEmpty_replaced query literal).trans hempty
          rw [Value.replaced, Value.layout_object hagain]
  | list list =>
      have hlist := list.changesOnly_layout query indent (depth + 1) hholds
      cases htext : compactList? list with
      | some text =>
          rw [Value.addressed, list.addressed_of_compactList? htext]
          refine (ChangesOnly.constant _).congr ?_
          intro literal _
          rw [Value.replaced, Value.layout, Value.layout, list.isEmpty_replaced,
            list.compactList?_replaced, htext]
      | none =>
          rw [Value.addressed, Value.layout_list htext]
          refine (hlist.surround _ _).congr ?_
          intro literal _
          have hagain := (list.compactList?_replaced query literal).trans htext
          rw [Value.replaced, Value.layout_list hagain]
termination_by structural value

theorem Body.changesOnly_layout (query : Query) (indent depth : Nat) {body : Body}
    (hholds : ∀ entry ∈ body.addressed query, entry.assigned = true ∧ entry.HoldsLine) :
    ChangesOnly (Item.scalarTexts (body.addressed query)) (body.layout indent depth)
      fun literal => (body.replaced query literal).layout indent depth := by
  obtain ⟨items, dangling⟩ := body
  exact changesOnly_body (Query.changesRow_among query indent depth hholds)
    (margin indent depth) dangling
termination_by structural body

theorem Query.changesRow_among (query : Query) (indent depth : Nat) {items : List Item}
    (hholds : ∀ entry ∈ query.addressedAmong items, entry.assigned = true ∧ entry.HoldsLine) :
    ∀ item ∈ items, item.ChangesRow query indent depth := by
  cases items with
  | nil => exact fun _ hitem => absurd hitem List.not_mem_nil
  | cons item items =>
      obtain ⟨hfirst, hothers⟩ := List.forall_mem_append.mp hholds
      exact List.forall_mem_cons.mpr ⟨Item.changesRow query indent depth hfirst,
        Query.changesRow_among query indent depth hothers⟩
termination_by structural items

theorem Item.changesRow (query : Query) (indent depth : Nat) {item : Item}
    (hholds : ∀ entry ∈ item.addressed query, entry.assigned = true ∧ entry.HoldsLine) :
    item.ChangesRow query indent depth := by
  cases hinside : query.inside item with
  | none =>
      rw [Item.addressed_eq, hinside] at hholds
      obtain ⟨hassigned, hline⟩ := hholds item (List.mem_singleton_self item)
      exact Item.changesRow_of_addressed hinside hassigned hline
  | some inner =>
      rw [Item.addressed_eq, hinside] at hholds
      obtain ⟨keys, value, assigned, comments, blankBefore, span⟩ := item
      exact Item.changesRow_of_inside hinside (value.changesOnly_layout inner indent depth hholds)
termination_by structural item

theorem ListBody.changesOnly_layout (query : Query) (indent depth : Nat) {list : ListBody}
    (hholds : ∀ entry ∈ list.addressed query, entry.assigned = true ∧ entry.HoldsLine) :
    ChangesOnly (Item.scalarTexts (list.addressed query)) (list.layout indent depth)
      fun literal => (list.replaced query literal).layout indent depth := by
  obtain ⟨elements, dangling⟩ := list
  have helements := Query.changesOnly_elementsOf query indent depth hholds
  have hall := helements.append (.constant (lines (margin indent depth) dangling))
  rw [List.append_nil] at hall
  exact hall
termination_by structural list

theorem Query.changesOnly_elementsOf (query : Query) (indent depth : Nat)
    {elements : List Element}
    (hholds : ∀ entry ∈ query.addressedWithin elements,
      entry.assigned = true ∧ entry.HoldsLine) :
    ChangesOnly (Item.scalarTexts (query.addressedWithin elements))
      (elementsOf indent depth elements)
      fun literal => elementsOf indent depth (query.replacedWithin literal elements) := by
  cases elements with
  | nil => exact .constant ""
  | cons element elements =>
      obtain ⟨value, comments⟩ := element
      obtain ⟨hfirst, hothers⟩ := List.forall_mem_append.mp hholds
      have hvalue := value.changesOnly_layout query indent depth hfirst
      have helements := Query.changesOnly_elementsOf query indent depth hothers
      rw [Query.addressedWithin, Item.scalarTexts_append, elementsOf, element_eq]
      refine ((hvalue.surround _ _).append helements).congr ?_
      intro literal _
      rw [Query.replacedWithin, elementsOf, element_eq]
termination_by structural elements

end

namespace Document

variable {source : String} {document : Document}

/-- In a document that was read from a source every addressed scalar has a `=` in front. -/
theorem assigned_of_addressed (hparse : Document.parse source = .ok document) (query : Query)
    {entry : Item} (hentry : entry ∈ document.body.addressed query) (hholds : entry.HoldsLine) :
    entry.assigned = true := by
  have hroot : ∀ part ∈ document.root.parts, part.Sound := sound_of_parse hparse
  obtain ⟨-, hobject⟩ := Node.forall_addressed query hroot entry hentry
  obtain ⟨scalar, hscalar, -⟩ := hholds
  rw [Item.value_of_scalar? hscalar] at hobject
  cases hassigned : entry.assigned with
  | true => rfl
  | false => exact absurd (hobject hassigned) Bool.false_ne_true

/-- If the items that a query selects all hold heredocs or scalars of a single line, then
setting them to a literal of a single line leaves the layout as it is between them, and
only puts the literal in place of each scalar. -/
theorem layout_set_interleaved (hparse : Document.parse source = .ok document) (query : Query)
    (hholds : ∀ entry ∈ query.selected (document.body.placed []), entry.HoldsLine)
    (indent : Nat) :
    let selected := query.selected (document.body.placed [])
    ∃ texts : List String, texts.length = selected.length + 1 ∧
      (Item.scalarTexts selected).length = selected.length ∧
      document.layout indent = interleaved texts (Item.scalarTexts selected) ∧
      ∀ (strict : Bool) (literal : Literal), literal.SingleLine → ∃ after,
        document.set query strict literal =
          (after, if selected.length = 0 ∧ strict then .error (.notFound query.display)
            else .ok selected.length) ∧
        after.layout indent =
          interleaved texts (List.replicate selected.length literal.text) := by
  dsimp only
  rw [← Body.addressed_eq_selected] at hholds ⊢
  have hlength : (Item.scalarTexts (document.body.addressed query)).length =
      (document.body.addressed query).length := by
    rw [Item.scalarTexts, List.length_map, Item.length_filterMap_scalar?]
    rw [List.find?_eq_none]
    intro entry hentry
    obtain ⟨scalar, hscalar, -⟩ := hholds entry hentry
    rw [hscalar]
    exact Bool.false_ne_true
  obtain ⟨texts, htexts, hlayout, hchanged⟩ := Body.changesOnly_layout query indent 0
    fun entry hentry => ⟨assigned_of_addressed hparse query hentry (hholds entry hentry),
      hholds entry hentry⟩
  rw [hlength] at htexts hchanged
  refine ⟨texts, htexts, hlength, hlayout, ?_⟩
  intro strict literal hline
  exact ⟨{ document with body := document.body.replaced query literal },
    document.set_eq query strict literal, hchanged literal hline⟩

/-- A number inside a list and a heredoc are set. -/
theorem layout_set_interleaved_ports : ∃ document,
    Document.parse "rules = [\x7b port = 80 \x7d]\nport = <<E\nx\nE\nlonger = 1 # c\n" =
        .ok document ∧
      (∀ entry ∈ Query.selected ⟨[], "port"⟩ (document.body.placed []), entry.HoldsLine) ∧
      ∃ texts : List String, texts.length = 3 ∧
        document.layout 2 = interleaved texts ["80", "<<E\nx\nE"] ∧
        Literal.SingleLine ⟨.number, "443"⟩ ∧
        ∃ after, document.set ⟨[], "port"⟩ true ⟨.number, "443"⟩ = (after, .ok 2) ∧
          after.layout 2 = interleaved texts ["443", "443"] := by
  obtain ⟨document, hparse, htest⟩ := Except.exists_of_map
    (x := Document.parse
      "rules = [\x7b port = 80 \x7d]\nport = <<E\nx\nE\nlonger = 1 # c\n")
    (p := fun document =>
      let selected := Query.selected ⟨[], "port"⟩ (document.body.placed [])
      decide ((∀ entry ∈ selected, entry.HoldsLine) ∧
        Item.scalarTexts selected = ["80", "<<E\nx\nE"]))
    (by decide +kernel)
  obtain ⟨hholds, htexts⟩ := of_decide_eq_true htest
  have hline : Literal.SingleLine ⟨.number, "443"⟩ := by decide
  obtain ⟨texts, hlength, hselected, hlayout, hset⟩ :=
    layout_set_interleaved hparse ⟨[], "port"⟩ hholds 2
  rw [htexts] at hselected hlayout
  rw [← hselected] at hlength hset
  exact ⟨document, hparse, hholds, texts, hlength, hlayout, hline, hset true _ hline⟩

end Document

end HclEditor
