import CharacterSheet.Toml.Value

/-!
Tables under construction. A document builds its tables from headers and from assignments with
dotted keys, and a table remembers how it came about, because that decides what may still be
added: a header opens a table once, a dotted key extends only tables made by dotted keys, and a
value that was written out as a whole is never extended.
-/
namespace CharacterSheet.Toml

/-- How a table came about: by its own header, by a header of a table inside it, or by a dotted
key. The whole document and the elements of arrays of tables count as opened by a header. -/
inductive Origin where
  | header
  | implied
  | dotted
  deriving DecidableEq, Repr

/-- What a key of a table under construction stands for: a finished value, a table, or an array of
tables with the last one first. -/
inductive Node where
  | value (v : Value)
  | table (origin : Origin) (entries : List (String × Node))
  | tables (elements : List (List (String × Node)))
  deriving Inhabited

/-- The keys of a table under construction, in the order in which they were first written. -/
abbrev Nodes := List (String × Node)

namespace Nodes

/-- Gives a key another node, in its old place or after all other keys. -/
def put (key : String) (node : Node) : Nodes → Nodes
  | [] => [(key, node)]
  | (k, old) :: nodes => if k = key then (k, node) :: nodes else (k, old) :: put key node nodes

/-- Changes the table at the end of a path. Tables missing on the way are made, by a dotted key or
as implied ones; in an array of tables the way leads through the last element. A dotted key does
not lead through a table that has a header. -/
def changeAt (byDottedKey : Bool) (change : Origin → Nodes → Option Nodes) :
    List String → Origin → Nodes → Option Nodes
  | [], origin, nodes => change origin nodes
  | key :: path, _, nodes => do
    let next := changeAt byDottedKey change path
    match nodes.lookup key with
    | none =>
      let origin := if byDottedKey then .dotted else .implied
      let inner ← next origin []
      some (nodes.put key (.table origin inner))
    | some (.value _) => none
    | some (.table origin inner) =>
      if byDottedKey && origin = .header then
        none
      else
        let inner ← next origin inner
        some (nodes.put key (.table origin inner))
    | some (.tables []) => none
    | some (.tables (last :: before)) =>
      let last ← next .header last
      some (nodes.put key (.tables (last :: before)))

/-- Gives a value to a new key at the end of a path. A dotted key ends in a table made by dotted
keys; a plain key does not. -/
def assign (path : List String) (key : String) (value : Value) (nodes : Nodes) : Option Nodes :=
  changeAt true (fun origin nodes =>
    if decide (origin = .dotted) = path.isEmpty then none
    else if (nodes.lookup key).isSome then none
    else some (nodes.put key (.value value))) path .header nodes

/-- Opens the table with a header. The table may have been implied before, but not opened. -/
def openTable (path : List String) (key : String) (nodes : Nodes) : Option Nodes :=
  changeAt false (fun _ nodes =>
    match nodes.lookup key with
    | none => some (nodes.put key (.table .header []))
    | some (.table .implied inner) => some (nodes.put key (.table .header inner))
    | some _ => none) path .header nodes

/-- Adds an element to an array of tables, which is made with its first element. -/
def openElement (path : List String) (key : String) (nodes : Nodes) : Option Nodes :=
  changeAt false (fun _ nodes =>
    match nodes.lookup key with
    | none => some (nodes.put key (.tables [[]]))
    | some (.tables elements) => some (nodes.put key (.tables ([] :: elements)))
    | some _ => none) path .header nodes

/-- Assigns within the table that a header has opened. -/
def assignWithin (header : List String) (path : List String) (key : String) (value : Value)
    (nodes : Nodes) : Option Nodes :=
  changeAt false (fun _ nodes => assign path key value nodes) header .header nodes

end Nodes

mutual

def Node.finish : Node → Value
  | .value v => v
  | .table _ nodes => .table (finishNodes nodes)
  | .tables elements => .array (finishTables elements).reverse

def finishNodes : List (String × Node) → Entries
  | [] => []
  | (key, node) :: nodes => (key, node.finish) :: finishNodes nodes

/-- The finished tables of an array, in the order in which they are kept. -/
def finishTables : List (List (String × Node)) → List Value
  | [] => []
  | nodes :: elements => .table (finishNodes nodes) :: finishTables elements

end

/-- The entries made by assignments in order, if none of them conflicts with an earlier one. -/
def Entries.ofAssignments? (assignments : List (List String × String × Value)) :
    Option Entries := do
  let nodes ← assignments.foldlM (fun (nodes : Nodes) (path, key, value) =>
    nodes.assign path key value) []
  some (finishNodes nodes)

end CharacterSheet.Toml
