import HclEditor.Toml.Scalar

/-!
# Tables of TOML

A document fills tables in the order of its lines. A table is made by a header, by the
path of a header below it, or by a dotted key, and each may be made only once: what has a
header cannot be extended by dotted keys, and what dotted keys have made cannot get a
header.
-/

namespace HclEditor.Toml

/-- What has made a table. -/
inductive Origin where
  | header
  | path
  | dottedKey
deriving DecidableEq, Repr

mutual

/-- What a key stands for. Arrays and inline tables cannot be extended and are not looked
into. -/
inductive Node where
  | scalar (value : Scalar)
  | closed
  | table (table : Table)
  | tables (elements : List Table)

/-- The entries of a table. -/
inductive Table where
  | mk (origin : Origin) (entries : List (String × Node))

end

namespace Table

/-- A table without entries. -/
def empty (origin : Origin) : Table :=
  .mk origin []

/-- What has made the table. -/
def origin : Table → Origin
  | .mk origin _ => origin

/-- The entries of the table. -/
def entries : Table → List (String × Node)
  | .mk _ entries => entries

/-- What a key stands for in the table. -/
def get? (table : Table) (key : String) : Option Node :=
  table.entries.lookup key

/-- The table with a key that stands for something else, or for the first time. -/
def insert (table : Table) (key : String) (node : Node) : Table :=
  .mk table.origin
    ((key, node) :: table.entries.filter fun entry => !(entry.1 == key))

/-- Changes the table that a path of keys leads to. Tables on the way are made as they are
needed, by a dotted key or by the path of a header; of several tables the last one is
meant. -/
def modifyAt (dotted : Bool) (change : Table → Option Table) :
    List String → Table → Option Table
  | [], table => change table
  | key :: keys, table =>
      match table.get? key with
      | none => do
          let inner ← modifyAt dotted change keys
            (empty (if dotted then .dottedKey else .path))
          return table.insert key (.table inner)
      | some (.table inner) =>
          if dotted ∧ inner.origin = .header then none
          else do return table.insert key (.table (← modifyAt dotted change keys inner))
      | some (.tables elements) =>
          match elements.getLast? with
          | some last => do
              let last ← modifyAt dotted change keys last
              return table.insert key (.tables (elements.dropLast ++ [last]))
          | none => none
      | some _ => none

/-- Gives a key its value. A key with dots may only extend tables that such keys have
made. -/
def define (path : List String) (key : String) (node : Node) : Table → Option Table :=
  modifyAt true (fun table =>
    if !path.isEmpty ∧ table.origin ≠ .dottedKey then none
    else if (table.get? key).isSome then none
    else some (table.insert key node)) path

/-- Makes the table of a header, which may so far only be on the path of another one. -/
def openTable (path : List String) (key : String) : Table → Option Table :=
  modifyAt false (fun table =>
    match table.get? key with
    | none => some (table.insert key (.table (empty .header)))
    | some (.table inner) =>
        if inner.origin = .path then
          some (table.insert key (.table (.mk .header inner.entries)))
        else none
    | some _ => none) path

/-- Makes one more table of those that share a header. -/
def openElement (path : List String) (key : String) : Table → Option Table :=
  modifyAt false (fun table =>
    match table.get? key with
    | none => some (table.insert key (.tables [empty .header]))
    | some (.tables elements) =>
        some (table.insert key (.tables (elements ++ [empty .header])))
    | some _ => none) path

end Table

end HclEditor.Toml
