import Mathlib
import HclEditor.Document.Basic

/-!
# The nodes of a document

A document is a tree whose nodes are the document itself, the items of bodies and the
elements of lists. A path leads from a node to one below it, by the position of each node
among the children of the one before. A node is made of its shell and of its children, so
two documents with the same shells at all paths are the same.
-/

namespace HclEditor

inductive Node where
  | document (body : Body)
  | item (entry : Item)
  | element (entry : Element)

namespace Value

/-- The items or the elements directly in the value. -/
def nodes : Value → List Node
  | .literal _ => []
  | .object body => body.items.map .item
  | .list body => body.elements.map .element

/-- The value without the items or elements in it. -/
def shell : Value → Value
  | .literal scalar => .literal scalar
  | .object body => .object { body with items := [] }
  | .list body => .list { body with elements := [] }

end Value

namespace Node

def value : Node → Value
  | .document body => .object body
  | .item entry => entry.value
  | .element entry => entry.value

def children (node : Node) : List Node :=
  node.value.nodes

/-- All that the node consists of, except for its children. -/
def shell : Node → Node
  | .document body => .document { body with items := [] }
  | .item entry => .item { entry with value := entry.value.shell }
  | .element entry => .element { entry with value := entry.value.shell }

/-- The items that the node adds to those around its children. -/
def entered : Node → List Item
  | .item entry => [entry]
  | _ => []

/-- The node at the end of a path, if the path leads to one. -/
def node? : List Nat → Node → Option Node
  | [], node => some node
  | index :: path, node => node.children[index]?.bind (node? path)

/-- The items around the node at the end of a path, outermost first. -/
def around : List Nat → Node → List Item
  | [], _ => []
  | index :: path, node => node.entered ++ node.children[index]?.elim [] (around path)

@[simp] theorem node?_nil (node : Node) : node.node? [] = some node := rfl

@[simp] theorem node?_cons (index : Nat) (path : List Nat) (node : Node) :
    node.node? (index :: path) = node.children[index]?.bind (node? path) := rfl

theorem node?_append (first second : List Nat) (node : Node) :
    node.node? (first ++ second) = (node.node? first).bind (node? second) := by
  induction first generalizing node with
  | nil => rfl
  | cons index first ih =>
      rw [List.cons_append, node?_cons, node?_cons, Option.bind_assoc]
      simp only [ih]

@[simp] theorem around_nil (node : Node) : node.around [] = [] := rfl

theorem around_cons {node child : Node} {index : Nat} (hchild : node.children[index]? = some child)
    (path : List Nat) : node.around (index :: path) = node.entered ++ child.around path := by
  rw [around, hchild, Option.elim_some]

theorem sizeOf_lt_of_mem_children {node child : Node} (hchild : child ∈ node.children) :
    sizeOf child.value < sizeOf node.value := by
  rw [children] at hchild
  cases hvalue : node.value with
  | literal scalar => simp [hvalue, Value.nodes] at hchild
  | object body =>
      simp only [hvalue, Value.nodes, List.mem_map] at hchild
      obtain ⟨item, hitem, rfl⟩ := hchild
      have hitems := List.sizeOf_lt_of_mem hitem
      obtain ⟨items, dangling⟩ := body
      obtain ⟨keys, value, assigned, comments, blankBefore, span⟩ := item
      simp only [Node.value, Value.object.sizeOf_spec, Body.mk.sizeOf_spec,
        Item.mk.sizeOf_spec] at hitems ⊢
      omega
  | list list =>
      simp only [hvalue, Value.nodes, List.mem_map] at hchild
      obtain ⟨element, helement, rfl⟩ := hchild
      have helements := List.sizeOf_lt_of_mem helement
      obtain ⟨elements, dangling⟩ := list
      obtain ⟨value, comments⟩ := element
      simp only [Node.value, Value.list.sizeOf_spec, ListBody.mk.sizeOf_spec,
        Element.mk.sizeOf_spec] at helements ⊢
      omega

/-- What holds of a node as soon as it holds of its children holds of every node. -/
@[elab_as_elim]
theorem induction {motive : Node → Prop}
    (node : ∀ node, (∀ child ∈ node.children, motive child) → motive node) (top : Node) :
    motive top :=
  node top fun child _ => induction node child
termination_by sizeOf top.value
decreasing_by exact sizeOf_lt_of_mem_children ‹_›

end Node

theorem Value.eq_of_shell_eq {first second : Value} (hshell : first.shell = second.shell)
    (hnodes : first.nodes = second.nodes) : first = second := by
  have hitems : Function.Injective Node.item := fun _ _ => Node.item.inj
  have helements : Function.Injective Node.element := fun _ _ => Node.element.inj
  cases first with
  | literal scalar => cases second <;> simp_all [Value.shell]
  | object body =>
      cases second with
      | object other =>
          simp only [Value.shell, Value.object.injEq, Body.mk.injEq, true_and] at hshell
          rw [Value.nodes, Value.nodes, hitems.list_map.eq_iff] at hnodes
          cases body; cases other
          simp_all
      | _ => cases hshell
  | list body =>
      cases second with
      | list other =>
          simp only [Value.shell, Value.list.injEq, ListBody.mk.injEq, true_and] at hshell
          rw [Value.nodes, Value.nodes, helements.list_map.eq_iff] at hnodes
          cases body; cases other
          simp_all
      | _ => cases hshell

namespace Node

@[simp] theorem value_shell (node : Node) : node.shell.value = node.value.shell := by
  cases node <;> rfl

/-- A node is made of its shell and of its children. -/
theorem eq_of_shell_eq {first second : Node} (hshell : first.shell = second.shell)
    (hchildren : first.children = second.children) : first = second := by
  have hvalue : first.value = second.value := by
    refine Value.eq_of_shell_eq ?_ hchildren
    rw [← value_shell, ← value_shell, hshell]
  cases first with
  | document body =>
      cases second with
      | document other => rw [Value.object.inj hvalue]
      | _ => cases hshell
  | item entry =>
      cases second with
      | item other =>
          obtain ⟨keys, value, assigned, comments, blankBefore, span⟩ := entry
          obtain ⟨keys', value', assigned', comments', blankBefore', span'⟩ := other
          simp_all [shell, Node.value]
      | _ => cases hshell
  | element entry =>
      cases second with
      | element other =>
          obtain ⟨value, comments⟩ := entry
          obtain ⟨value', comments'⟩ := other
          simp_all [shell, Node.value]
      | _ => cases hshell

/-- Nodes that have the same shells below them are the same. -/
theorem ext_shell {first second : Node}
    (hshells : ∀ path, (first.node? path).map shell = (second.node? path).map shell) :
    first = second := by
  induction first using Node.induction generalizing second with
  | node first ih =>
      -- The empty path gives the shells, and every other path starts at a child.
      have hown : first.shell = second.shell := by simpa using hshells []
      refine eq_of_shell_eq hown (List.ext_getElem? ?_)
      intro index
      have hindex (path : List Nat) : ((first.children[index]?).bind (node? path)).map shell =
          ((second.children[index]?).bind (node? path)).map shell := hshells (index :: path)
      have hnil := hindex []
      cases hfirst : first.children[index]? with
      | none =>
          cases hsecond : second.children[index]? with
          | none => rfl
          | some other => simp [hfirst, hsecond] at hnil
      | some child =>
          cases hsecond : second.children[index]? with
          | none => simp [hfirst, hsecond] at hnil
          | some other =>
              rw [hfirst, hsecond] at hindex
              rw [ih child (List.mem_of_getElem? hfirst) hindex]

end Node

/-- The node that all others of the document are below. -/
def Document.root (document : Document) : Node :=
  .document document.body

end HclEditor
