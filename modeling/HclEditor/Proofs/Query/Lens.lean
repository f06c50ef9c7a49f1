import Mathlib
import HclEditor.Proofs.Query.Reading
import HclEditor.Proofs.Query.Replacement

/-!
# Reading and replacing what was replaced

Replacing values leaves the keys of all items as they are. A query is then followed in the
new document as in the old one, down to the items whose values were replaced: it addresses
these again and nothing else, even where matches were inside the old values. So what was
set is read back, and setting again is the same as setting once.
-/

namespace HclEditor

theorem Item.keys_replaced (query : Query) (literal : Literal) (entry : Item) :
    (entry.replaced query literal).keys = entry.keys := by
  rw [Item.replaced_eq]
  split <;> rfl

theorem Query.into_replaced (query other : Query) (literal : Literal) (node : Node) :
    query.into (node.replaced other literal) = query.into node := by
  cases node with
  | item entry => exact query.inside_congr (entry.keys_replaced other literal)
  | _ => rfl

@[simp] theorem Item.scalar?_withValue (entry : Item) (literal : Literal) :
    (entry.withValue (.literal literal)).scalar? = some literal := rfl

namespace Node

/-- An item whose value was replaced is addressed again, and a second replacement leaves
nothing of the first. -/
theorem exists_item_replaced {query : Query} {node : Node} (hinto : query.into node = none)
    (literal : Literal) :
    ∃ entry, node.addressed query = [entry] ∧
      (node.replaced query literal).addressed query = [entry.withValue (.literal literal)] ∧
      ∀ second, (node.replaced query literal).replaced query second =
        node.replaced query second := by
  obtain ⟨entry, -, haddressed, hreplaced⟩ := exists_item_of_into_eq_none hinto
  obtain ⟨entry', hentry', haddressed', hreplaced'⟩ :=
    exists_item_of_into_eq_none ((query.into_replaced query literal node).trans hinto)
  obtain rfl : entry.withValue (.literal literal) = entry' :=
    item.inj ((hreplaced literal).symm.trans hentry')
  refine ⟨entry, haddressed, haddressed', fun second => ?_⟩
  rw [hreplaced' second, hreplaced second, Item.withValue_literal, Item.withValue_literal,
    Item.withValue_literal]

/-- The items that a query addresses are addressed again once their values are replaced. -/
theorem addressed_replaced (query : Query) (literal : Literal) (node : Node) :
    (node.replaced query literal).addressed query =
      (node.addressed query).map fun entry => entry.withValue (.literal literal) := by
  induction node using Node.induction generalizing query with
  | node node ih =>
      cases hinto : query.into node with
      | none =>
          obtain ⟨entry, haddressed, hagain, -⟩ := exists_item_replaced hinto literal
          rw [hagain, haddressed, List.map_singleton]
      | some inner =>
          -- Keys stay, so the query takes the same way into the new node as into the old one.
          have hagain := (query.into_replaced query literal node).trans hinto
          rw [addressed_eq hagain, addressed_eq hinto, children_replaced hinto,
            List.flatMap_map, List.map_flatMap]
          exact List.flatMap_congr fun child hchild => ih child hchild inner

/-- Of two replacements for the same query only the second one is left. -/
theorem replaced_replaced (query : Query) (first second : Literal) (node : Node) :
    (node.replaced query first).replaced query second = node.replaced query second := by
  induction node using Node.induction generalizing query with
  | node node ih =>
      cases hinto : query.into node with
      | none =>
          obtain ⟨-, -, -, hsecond⟩ := exists_item_replaced hinto first
          exact hsecond second
      | some inner =>
          have hagain := (query.into_replaced query first node).trans hinto
          apply eq_of_shell_eq
          · rw [shell_replaced hagain, shell_replaced hinto, shell_replaced hinto]
          · rw [children_replaced hagain, children_replaced hinto, children_replaced hinto,
              List.map_map]
            exact List.map_congr_left fun child hchild => ih child hchild inner

end Node

namespace Body

variable (query : Query) (literal : Literal) (body : Body)

theorem addressed_replaced : (body.replaced query literal).addressed query =
    (body.addressed query).map fun entry => entry.withValue (.literal literal) :=
  Node.addressed_replaced query literal (.document body)

theorem replaced_replaced (second : Literal) :
    (body.replaced query literal).replaced query second = body.replaced query second :=
  Node.document.inj (Node.replaced_replaced query literal second (.document body))

/-- Every value that was replaced is read as the literal. -/
theorem get_replaced : (body.replaced query literal).get query false =
    .ok (List.replicate (body.addressed query).length literal.content) := by
  have hscalars : (((body.addressed query).map fun entry =>
      entry.withValue (.literal literal)).find? fun entry => entry.scalar?.isNone) = none := by
    simp [List.find?_eq_none]
  have hliterals : ((body.addressed query).map fun entry =>
      entry.withValue (.literal literal)).filterMap Item.scalar? =
        List.replicate (body.addressed query).length literal := by
    induction body.addressed query with
    | nil => rfl
    | cons entry entries ih => simp [List.replicate_succ, ih]
  rw [get_eq, addressed_replaced, hscalars, hliterals, List.map_replicate, Bool.and_false]
  rfl

end Body

namespace Document

/-- After setting the values that a query addresses, each of them is read as what was set,
and setting them once more gives the document, and the count, that setting them to the
second literal alone gives. -/
theorem get_set_set (query : Query) (first second : Literal) (document : Document)
    (taken : Bytes) :
    ∃ after count, document.set query false first = (after, .ok count) ∧
      after.get query false { taken } =
        ({ taken := taken ++
            (List.replicate count (Text.encode (first.content ++ "\n"))).flatten }, .ok count) ∧
      after.set query false second = ((document.set query false second).1, .ok count) := by
  refine ⟨{ document with body := document.body.replaced query first },
    (document.body.addressed query).length, ?_, ?_, ?_⟩
  · simp [set_eq]
  · rw [get, Body.get_replaced]
    simp only [Sink.put, Text.encode_putLines, List.flatMap_replicate, List.length_replicate,
      if_true]
  · simp [set_eq, Body.replaced_replaced, Body.addressed_replaced]

end Document

end HclEditor
