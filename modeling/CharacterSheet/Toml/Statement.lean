import CharacterSheet.Toml.Moment
import CharacterSheet.Toml.Number
import CharacterSheet.Toml.Quoted
import CharacterSheet.Toml.Table

/-!
The statements of a TOML text: headers and assignments, each on its own line, with blank lines and
comments between them. Values may nest to a fixed depth, and a dotted key has a limited number of
parts.
-/
namespace CharacterSheet.Toml

open Quoted (isBlank isPlain)

/-- A key given as the way to it and its last part. -/
structure Path where
  parents : List String
  last : String
  deriving DecidableEq, Repr

inductive Statement where
  | assign (path : Path) (value : Value)
  | table (path : Path)
  | element (path : Path)
  deriving Repr

/-- The largest number of arrays and inline tables within each other. -/
def maxDepth : Nat := 80

/-- The largest number of parts of a dotted key. -/
def maxParts : Nat := 80

def skipBlanks (cs : List Char) : List Char := cs.dropWhile isBlank

/-- Passes over a comment up to the end of its line; nothing if a character is not allowed in it.
-/
def skipComment : List Char → Option (List Char)
  | [] => some []
  | '\n' :: cs => some ('\n' :: cs)
  | '\r' :: '\n' :: cs => some ('\r' :: '\n' :: cs)
  | c :: cs => if isPlain c then skipComment cs else none

/-- Passes over blanks and a comment to the start of the next line. -/
def endLine (cs : List Char) : Option (List Char) := do
  let cs := skipBlanks cs
  let cs ← if cs.head? = some '#' then skipComment cs else some cs
  match cs with
  | [] => some []
  | '\n' :: rest => some rest
  | '\r' :: '\n' :: rest => some rest
  | _ => none

/-- Passes over blanks, line ends and comments; nothing if a comment has a character that is not
allowed in it. -/
def skipLines (inComment : Bool) : List Char → Option (List Char)
  | [] => some []
  | '\r' :: '\n' :: cs => skipLines false cs
  | c :: cs =>
    if c = '\n' then skipLines false cs
    else if inComment then (if isPlain c then skipLines true cs else none)
    else if isBlank c then skipLines false cs
    else if c = '#' then skipLines true cs
    else some (c :: cs)

def isBare (c : Char) : Bool := c.isAlphanum || c == '_' || c == '-'

/-- Reads one part of a key: bare, or quoted on one line. -/
def scanKeyPart (cs : List Char) : Option (String × List Char) :=
  match cs with
  | '"' :: cs => (Quoted.basic cs).map fun (key, rest) => (String.ofList key, rest)
  | '\'' :: cs => (Quoted.literal cs).map fun (key, rest) => (String.ofList key, rest)
  | _ =>
    let key := cs.takeWhile isBare
    if key = [] then none else some (String.ofList key, cs.dropWhile isBare)

/-- Reads a key of at most a given number of parts, and the blanks after it. -/
def scanPath : Nat → List Char → Option (Path × List Char)
  | 0, _ => none
  | parts + 1, cs => do
    let (key, rest) ← scanKeyPart cs
    match skipBlanks rest with
    | '.' :: rest => do
      let (path, rest) ← scanPath parts (skipBlanks rest)
      some (⟨key :: path.parents, path.last⟩, rest)
    | rest => some (⟨[], key⟩, rest)

def scanBoolean : List Char → Option (Value × List Char)
  | 't' :: 'r' :: 'u' :: 'e' :: rest => some (.boolean true, rest)
  | 'f' :: 'a' :: 'l' :: 's' :: 'e' :: rest => some (.boolean false, rest)
  | _ => none

/-- Reads a value that holds no other values. -/
def scanScalar (cs : List Char) : Option (Value × List Char) :=
  match cs with
  | '"' :: _ | '\'' :: _ => (Quoted.scan cs).map fun (s, rest) => (.string (String.ofList s), rest)
  | _ =>
    (scanBoolean cs).or <|
      ((Moment.scan cs).map fun (m, rest) => (.moment m, rest)).or (Number.scan cs)

/-- Reads the items of an array after its opening bracket, with a reader for one item and in at
most a given number of steps. A comma may follow the last item. -/
def scanItems (item : List Char → Option (Value × List Char)) :
    Nat → List Char → Option (List Value × List Char)
  | 0, _ => none
  | steps + 1, cs => do
    match ← skipLines false cs with
    | ']' :: rest => some ([], rest)
    | cs => do
      let (value, rest) ← item cs
      match ← skipLines false rest with
      | ',' :: rest => do
        let (values, rest) ← scanItems item steps rest
        some (value :: values, rest)
      | ']' :: rest => some ([value], rest)
      | _ => none

/-- Reads the assignments of an inline table after its opening brace, with a reader for one value
and in at most a given number of steps. A comma may follow the last assignment. -/
def scanInline (item : List Char → Option (Value × List Char)) :
    Nat → List Char → Option (List (List String × String × Value) × List Char)
  | 0, _ => none
  | steps + 1, cs => do
    match ← skipLines false cs with
    | '\x7d' :: rest => some ([], rest)
    | cs => do
      let (path, rest) ← scanPath maxParts cs
      match ← skipLines false rest with
      | '=' :: rest => do
        let (value, rest) ← item (← skipLines false rest)
        match ← skipLines false rest with
        | ',' :: rest => do
          let (assignments, rest) ← scanInline item steps rest
          some ((path.parents, path.last, value) :: assignments, rest)
        | '\x7d' :: rest => some ([(path.parents, path.last, value)], rest)
        | _ => none
      | _ => none

/-- Reads a value with at most a given number of arrays and inline tables within each other. -/
def scanValue : Nat → List Char → Option (Value × List Char)
  | 0, cs =>
    match cs with
    | '[' :: _ | '\x7b' :: _ => none
    | _ => scanScalar cs
  | depth + 1, cs =>
    match cs with
    | '[' :: rest =>
      (scanItems (scanValue depth) cs.length rest).map fun (items, rest) => (.array items, rest)
    | '\x7b' :: rest => do
      let (assignments, rest) ← scanInline (scanValue depth) cs.length rest
      let entries ← Entries.ofAssignments? assignments
      some (.table entries, rest)
    | _ => scanScalar cs

namespace Statement

/-- Reads a key and a value with an equals sign between them. -/
def scanAssignment (cs : List Char) : Option (Statement × List Char) := do
  let (path, rest) ← scanPath maxParts cs
  match rest with
  | '=' :: rest => do
    let (value, rest) ← scanValue maxDepth (skipBlanks rest)
    some (assign path value, rest)
  | _ => none

def scan : List Char → Option (Statement × List Char)
  | '[' :: '[' :: cs => do
    let (path, rest) ← scanPath maxParts (skipBlanks cs)
    match rest with
    | ']' :: ']' :: rest => some (element path, rest)
    | _ => none
  | '[' :: cs => do
    let (path, rest) ← scanPath maxParts (skipBlanks cs)
    match rest with
    | ']' :: rest => some (table path, rest)
    | _ => none
  | cs => scanAssignment cs

/-- Reads the statements of a text in at most a given number of steps. -/
def scanWithin : Nat → List Char → Option (List Statement)
  | _, [] => some []
  | 0, _ :: _ => none
  | steps + 1, c :: cs =>
    match endLine (c :: cs) with
    | some rest => scanWithin steps rest
    | none => do
      let (statement, rest) ← scan (skipBlanks (c :: cs))
      let statements ← scanWithin steps (← endLine rest)
      some (statement :: statements)

/-- Reads the statements of a text; every step takes a character, so its length is enough. -/
def scanAll (cs : List Char) : Option (List Statement) := scanWithin cs.length cs

end Statement
end CharacterSheet.Toml
