import CharacterSheet.Text.Digit

/-!
Quoted strings of TOML: basic strings with escapes, literal strings without, and the forms of both
that may run over several lines. Each reader starts after the opening quotes and leaves what
follows the closing ones.
-/
namespace CharacterSheet.Toml.Quoted

def isBlank (c : Char) : Bool := c == ' ' || c == '\t'

/-- The characters that may stand for themselves in comments and strings: the tab, and everything
from the space on except the delete character. -/
def isPlain (c : Char) : Bool := c == '\t' || (' ' ≤ c && c ≠ '\x7f')

/-- Puts a character in front of what a reader has read. -/
def push (c : Char) : Option (List Char × List Char) → Option (List Char × List Char)
  | some (cs, rest) => some (c :: cs, rest)
  | none => none

/-- The character named by a short escape. -/
def escape? : Char → Option Char
  | 'b' => some '\x08'
  | 't' => some '\t'
  | 'n' => some '\n'
  | 'f' => some '\x0c'
  | 'r' => some '\r'
  | 'e' => some '\x1b'
  | '"' => some '"'
  | '\\' => some '\\'
  | _ => none

/-- The character whose code point is spelled by digits to the base sixteen. Halves of surrogate
pairs and numbers beyond the last code point name none. -/
def codePoint? (digits : List Char) : Option Char := do
  let digits ← digits.mapM Digit.hex?
  let n := Digit.value 16 (digits.map Fin.val)
  if n.isValidChar then some (Char.ofNat n) else none

def basic : List Char → Option (List Char × List Char)
  | [] => none
  | '"' :: cs => some ([], cs)
  | '\\' :: 'x' :: a :: b :: cs => do push (← codePoint? [a, b]) (basic cs)
  | '\\' :: 'u' :: a :: b :: c :: d :: cs => do push (← codePoint? [a, b, c, d]) (basic cs)
  | '\\' :: 'U' :: a :: b :: c :: d :: e :: f :: g :: h :: cs => do
    push (← codePoint? [a, b, c, d, e, f, g, h]) (basic cs)
  | '\\' :: e :: cs => do push (← escape? e) (basic cs)
  | c :: cs => if isPlain c && c ≠ '\\' then push c (basic cs) else none

def literal : List Char → Option (List Char × List Char)
  | [] => none
  | '\'' :: cs => some ([], cs)
  | c :: cs => if isPlain c then push c (literal cs) else none

/-- Whether only blanks stand before the end of the line. -/
def lineEnds (cs : List Char) : Bool :=
  match cs.dropWhile isBlank with
  | '\n' :: _ => true
  | '\r' :: '\n' :: _ => true
  | _ => false

/-- Reads a basic string of several lines. While joining, blanks and line ends are passed over: a
backslash at the end of a line joins it to the next text. Up to two quotes may stand right before
the three that close. -/
def multiBasic : Bool → List Char → Option (List Char × List Char)
  | _, [] => none
  | _, '"' :: '"' :: '"' :: '"' :: '"' :: cs => some (['"', '"'], cs)
  | _, '"' :: '"' :: '"' :: '"' :: cs => some (['"'], cs)
  | _, '"' :: '"' :: '"' :: cs => some ([], cs)
  | _, '\\' :: 'x' :: a :: b :: cs => do push (← codePoint? [a, b]) (multiBasic false cs)
  | _, '\\' :: 'u' :: a :: b :: c :: d :: cs => do
    push (← codePoint? [a, b, c, d]) (multiBasic false cs)
  | _, '\\' :: 'U' :: a :: b :: c :: d :: e :: f :: g :: h :: cs => do
    push (← codePoint? [a, b, c, d, e, f, g, h]) (multiBasic false cs)
  | joining, '\r' :: '\n' :: cs =>
    if joining then multiBasic true cs else push '\n' (multiBasic false cs)
  | joining, c :: cs =>
    if c = '\\' then
      if lineEnds cs then
        multiBasic true cs
      else
        match cs with
        | e :: cs => do push (← escape? e) (multiBasic false cs)
        | [] => none
    else if joining && (isBlank c || c = '\n') then multiBasic true cs
    else if isPlain c || c = '\n' then push c (multiBasic false cs)
    else none

/-- Reads a literal string of several lines. Up to two quotes may stand right before the three
that close. -/
def multiLiteral : List Char → Option (List Char × List Char)
  | [] => none
  | '\'' :: '\'' :: '\'' :: '\'' :: '\'' :: cs => some (['\'', '\''], cs)
  | '\'' :: '\'' :: '\'' :: '\'' :: cs => some (['\''], cs)
  | '\'' :: '\'' :: '\'' :: cs => some ([], cs)
  | '\r' :: '\n' :: cs => push '\n' (multiLiteral cs)
  | c :: cs => if isPlain c || c = '\n' then push c (multiLiteral cs) else none

/-- A line end right after the opening quotes of several lines is not part of the string. -/
def dropFirstLineEnd : List Char → List Char
  | '\n' :: cs => cs
  | '\r' :: '\n' :: cs => cs
  | cs => cs

/-- Reads a quoted string of any form, with its opening quotes; nothing if there are none. -/
def scan : List Char → Option (List Char × List Char)
  | '"' :: '"' :: '"' :: cs => multiBasic false (dropFirstLineEnd cs)
  | '"' :: cs => basic cs
  | '\'' :: '\'' :: '\'' :: cs => multiLiteral (dropFirstLineEnd cs)
  | '\'' :: cs => literal cs
  | _ => none

example : scan "\"a\\u00e9\"x".toList = some (['a', 'é'], ['x']) := by decide

example : scan "'''a'''''b".toList = some (['a', '\'', '\''], ['b']) := by decide

end CharacterSheet.Toml.Quoted
