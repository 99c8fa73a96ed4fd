import CharacterSheet.Json.Value
import CharacterSheet.Text.Digit

/-!
The tokens of a JSON text. Between tokens any number of spaces, tabs and line ends may stand;
every token can be written in one way that reads back as that token.
-/
namespace CharacterSheet.Json

/-- The smallest meaningful parts of a JSON text. -/
inductive Token where
  | openObject
  | closeObject
  | openArray
  | closeArray
  | colon
  | comma
  | null
  | bool (b : Bool)
  | number (n : Number)
  | string (s : Literal)
  deriving DecidableEq, Repr

def isSpace (c : Char) : Bool := c == ' ' || c == '\t' || c == '\n' || c == '\r'

namespace Number

/-- Reads the point and the digits after it, if there is a point. -/
def scanFraction : List Char → Option (List (Fin 10) × List Char)
  | '.' :: cs =>
    match Digit.takeDecimals cs with
    | ([], _) => none
    | (digits, rest) => some (digits, rest)
  | cs => some ([], cs)

/-- Reads the sign of a power of ten, if there is one. -/
def scanSign : List Char → Bool × List Char
  | '-' :: cs => (true, cs)
  | '+' :: cs => (false, cs)
  | cs => (false, cs)

def scanPower (cs : List Char) : Option (Option Int × List Char) :=
  let (negative, cs) := scanSign cs
  match Digit.takeDecimals cs with
  | ([], _) => none
  | (digits, rest) =>
    let n : Int := Digit.ofDecimals digits
    some (some (if negative then -n else n), rest)

/-- Reads a power of ten, if there is one. -/
def scanExponent : List Char → Option (Option Int × List Char)
  | 'e' :: cs => scanPower cs
  | 'E' :: cs => scanPower cs
  | cs => some (none, cs)

/-- Reads a number without its sign. The whole part has no zero in front of other digits. -/
def scanUnsigned (negative : Bool) (cs : List Char) : Option (Number × List Char) :=
  match Digit.takeDecimals cs with
  | ([], _) => none
  | (0 :: _ :: _, _) => none
  | (digits, rest) => do
    let (fraction, rest) ← scanFraction rest
    let (exponent, rest) ← scanExponent rest
    some (⟨negative, Digit.ofDecimals digits, fraction, exponent⟩, rest)

def scan : List Char → Option (Number × List Char)
  | '-' :: cs => scanUnsigned true cs
  | cs => scanUnsigned false cs

def writeDigits (digits : List (Fin 10)) : List Char := digits.map Digit.char

/-- Writes a number as it was spelled, with its power of ten after a small letter. -/
def write (n : Number) : List Char :=
  (if n.negative then ['-'] else []) ++ writeDigits (Digit.decimals n.whole) ++
    (if n.fraction = [] then [] else '.' :: writeDigits n.fraction) ++
    match n.exponent with
    | none => []
    | some e =>
      'e' :: (if e < 0 then ['-'] else []) ++ writeDigits (Digit.decimals e.natAbs)

end Number

namespace Literal

/-- A part of a string literal: a character, or a 16-bit unit given by a numeric escape. -/
inductive Piece where
  | char (c : Char)
  | unit (u : Nat)
  deriving DecidableEq, Repr

/-- The character named by a short escape. -/
def escape? : Char → Option Char
  | '"' => some '"'
  | '\\' => some '\\'
  | '/' => some '/'
  | 'b' => some '\x08'
  | 'f' => some '\x0c'
  | 'n' => some '\n'
  | 'r' => some '\r'
  | 't' => some '\t'
  | _ => none

/-- The unit named by four digits to the base sixteen. -/
def unit? (a b c d : Char) : Option Nat := do
  let a ← Digit.hex? a
  let b ← Digit.hex? b
  let c ← Digit.hex? c
  let d ← Digit.hex? d
  some (Digit.value 16 [a, b, c, d])

/-- Reads the parts of a literal up to and including its closing quote. Characters below the space
must be escaped. -/
def scanPieces : List Char → Option (List Piece × List Char)
  | [] => none
  | '"' :: cs => some ([], cs)
  | '\\' :: 'u' :: a :: b :: c :: d :: cs => do
    let u ← unit? a b c d
    let (pieces, rest) ← scanPieces cs
    some (.unit u :: pieces, rest)
  | '\\' :: e :: cs => do
    let c ← escape? e
    let (pieces, rest) ← scanPieces cs
    some (.char c :: pieces, rest)
  | c :: cs =>
    if c < ' ' then
      none
    else do
      let (pieces, rest) ← scanPieces cs
      some (.char c :: pieces, rest)

/-- Whether a unit is the first half of a surrogate pair. -/
def isHigh (u : Nat) : Bool := 0xD800 ≤ u && u < 0xDC00

/-- Whether a unit is the second half of a surrogate pair. -/
def isLow (u : Nat) : Bool := 0xDC00 ≤ u && u < 0xE000

/-- The characters that the parts stand for; nothing if half of a surrogate pair stands alone. -/
def assemble? : List Piece → Option (List Char)
  | [] => some []
  | .char c :: ps => (assemble? ps).map (c :: ·)
  | .unit u :: .unit v :: ps =>
    if isHigh u then
      if isLow v then
        (assemble? ps).map (Char.ofNat (0x10000 + (u - 0xD800) * 0x400 + (v - 0xDC00)) :: ·)
      else
        none
    else if isLow u then
      none
    else
      (assemble? (.unit v :: ps)).map (Char.ofNat u :: ·)
  | .unit u :: ps =>
    if isHigh u || isLow u then none else (assemble? ps).map (Char.ofNat u :: ·)

/-- Reads a literal after its opening quote. -/
def scan (cs : List Char) : Option (Literal × List Char) := do
  let (pieces, rest) ← scanPieces cs
  some ((assemble? pieces).map String.ofList, rest)

def writeChar (c : Char) : List Char :=
  if c = '"' then ['\\', '"']
  else if c = '\\' then ['\\', '\\']
  else if c < ' ' then
    ['\\', 'u', '0', '0', Digit.hexChar (Digit.lastHex (c.toNat / 16)),
      Digit.hexChar (Digit.lastHex c.toNat)]
  else [c]

/-- Writes a literal with its quotes; one that has no text is written as a lone half of a pair. -/
def write : Literal → List Char
  | some s => '"' :: s.toList.flatMap writeChar ++ ['"']
  | none => ['"', '\\', 'u', 'd', '8', '0', '0', '"']

end Literal

namespace Token

/-- Reads the token at the start of a text. -/
def next? : List Char → Option (Token × List Char)
  | '{' :: cs => some (openObject, cs)
  | '}' :: cs => some (closeObject, cs)
  | '[' :: cs => some (openArray, cs)
  | ']' :: cs => some (closeArray, cs)
  | ':' :: cs => some (colon, cs)
  | ',' :: cs => some (comma, cs)
  | '"' :: cs => (Literal.scan cs).map fun (s, rest) => (string s, rest)
  | 'n' :: 'u' :: 'l' :: 'l' :: cs => some (null, cs)
  | 't' :: 'r' :: 'u' :: 'e' :: cs => some (bool true, cs)
  | 'f' :: 'a' :: 'l' :: 's' :: 'e' :: cs => some (bool false, cs)
  | cs => (Number.scan cs).map fun (n, rest) => (number n, rest)

/-- Reads all tokens of a text in at most a given number of steps. -/
def scanWithin : Nat → List Char → Option (List Token)
  | _, [] => some []
  | 0, _ :: _ => none
  | steps + 1, c :: cs =>
    if isSpace c then
      scanWithin steps cs
    else do
      let (token, rest) ← next? (c :: cs)
      let tokens ← scanWithin steps rest
      some (token :: tokens)

/-- Reads all tokens of a text; every step takes a character, so its length is enough. -/
def scan (cs : List Char) : Option (List Token) := scanWithin cs.length cs

def write : Token → List Char
  | openObject => ['{']
  | closeObject => ['}']
  | openArray => ['[']
  | closeArray => [']']
  | colon => [':']
  | comma => [',']
  | null => ['n', 'u', 'l', 'l']
  | bool true => ['t', 'r', 'u', 'e']
  | bool false => ['f', 'a', 'l', 's', 'e']
  | number n => n.write
  | string s => Literal.write s

example : scan "[10, -0.5e3]".toList = some [openArray, number (.ofNat 10), comma,
    number ⟨true, 0, [5], some 3⟩, closeArray] := by decide

end Token
end CharacterSheet.Json
