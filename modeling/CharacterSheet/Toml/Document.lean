import CharacterSheet.Toml.Statement

/-!
TOML documents: the statements of a text, carried out in order, build the table that the text
stands for. A text with a malformed statement, or with a statement that conflicts with an earlier
one, is no document.
-/
namespace CharacterSheet.Toml

/-- A document being built: its tables, and the way to the table that the last header opened. -/
structure Draft where
  nodes : Nodes
  header : List String

namespace Draft

def empty : Draft := ⟨[], []⟩

def perform (draft : Draft) : Statement → Option Draft
  | .assign path value => do
    let nodes ← draft.nodes.assignWithin draft.header path.parents path.last value
    some ⟨nodes, draft.header⟩
  | .table path => do
    let nodes ← draft.nodes.openTable path.parents path.last
    some ⟨nodes, path.parents ++ [path.last]⟩
  | .element path => do
    let nodes ← draft.nodes.openElement path.parents path.last
    some ⟨nodes, path.parents ++ [path.last]⟩

end Draft

/-- The table built by statements in order. -/
def Entries.ofStatements? (statements : List Statement) : Option Entries := do
  let draft ← statements.foldlM Draft.perform Draft.empty
  some (finishNodes draft.nodes)

/-- A text without the byte order mark that may stand at its start. -/
def dropMark : List Char → List Char
  | '\uFEFF' :: cs => cs
  | cs => cs

/-- The table that a text stands for, if it is a document. -/
def Entries.read? (text : String) : Option Entries := do
  let statements ← Statement.scanAll (dropMark text.toList)
  Entries.ofStatements? statements

end CharacterSheet.Toml
