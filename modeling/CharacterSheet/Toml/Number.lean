import CharacterSheet.Text.Digit
import CharacterSheet.Toml.Value

/-!
Spelled numbers of TOML. Single underscores may stand between digits; a decimal number has no zero
in front of other digits; integers to the bases sixteen, eight and two carry no sign. A numeral
ends at a delimiter, but goes on over tabs to another piece. One with only the outline of an integer
names no number; it is read as written, to be refused where it is looked at. A reader leaves the
rest of the text.
-/
namespace CharacterSheet.Toml.Number

def decimal? (c : Char) : Option Nat := (Digit.decimal? c).map Fin.val

def hex? (c : Char) : Option Nat := (Digit.hex? c).map Fin.val

def octal? (c : Char) : Option Nat := (decimal? c).filter (· < 8)

def binary? (c : Char) : Option Nat := (decimal? c).filter (· < 2)

/-- The further digits of a number, each possibly after one underscore, and the rest. -/
def moreDigits (digit? : Char → Option Nat) : List Char → List Nat × List Char
  | [] => ([], [])
  | '_' :: c :: cs =>
    match digit? c with
    | some d => (d :: (moreDigits digit? cs).1, (moreDigits digit? cs).2)
    | none => ([], '_' :: c :: cs)
  | c :: cs =>
    match digit? c with
    | some d => (d :: (moreDigits digit? cs).1, (moreDigits digit? cs).2)
    | none => ([], c :: cs)

/-- One or more digits, and the rest. -/
def digits (digit? : Char → Option Nat) : List Char → Option (List Nat × List Char)
  | [] => none
  | c :: cs => do
    let d ← digit? c
    let (ds, rest) := moreDigits digit? cs
    some (d :: ds, rest)

/-- The sign of a number, and the rest; a number without a sign is not negative. -/
def sign : List Char → Bool × List Char
  | '-' :: cs => (true, cs)
  | '+' :: cs => (false, cs)
  | cs => (false, cs)

def signed (negative : Bool) (n : Nat) : Int := if negative then -(n : Int) else n

/-- The digits after the point; none if no point with digits follows. -/
def fraction : List Char → List Nat × List Char
  | '.' :: cs => (digits decimal? cs).getD ([], '.' :: cs)
  | cs => ([], cs)

/-- The power of ten after its letter, which may be of either case. -/
def power? : List Char → Option (Int × List Char)
  | 'e' :: cs => read cs
  | 'E' :: cs => read cs
  | _ => none
where
  read (cs : List Char) : Option (Int × List Char) := do
    let (negative, cs) := sign cs
    let (ds, rest) ← digits decimal? cs
    some (signed negative (Digit.value 10 ds), rest)

/-- Reads a decimal integer, or a fraction if a point or a power of ten follows the digits. -/
def scanDecimal (cs : List Char) : Option (Value × List Char) := do
  let (negative, cs) := sign cs
  let (whole, cs) ← digits decimal? cs
  if whole.head? = some 0 ∧ whole.length ≠ 1 then
    none
  else
    let (places, cs) := fraction cs
    let significand := Digit.value 10 (whole ++ places)
    match power? cs with
    | some (exponent, rest) =>
      some (.real (.decimal negative significand (exponent - places.length)), rest)
    | none =>
      if places = [] then
        some (.integer (signed negative significand), cs)
      else
        some (.real (.decimal negative significand (-places.length)), cs)

/-- Reads an infinity or the value that is no number. -/
def scanSpecial (cs : List Char) : Option (Value × List Char) :=
  let (negative, cs) := sign cs
  match cs with
  | 'i' :: 'n' :: 'f' :: rest => some (.real (.infinity negative), rest)
  | 'n' :: 'a' :: 'n' :: rest => some (.real .nan, rest)
  | _ => none

/-- Reads the digits of an integer to a base. -/
def scanBase (base : Nat) (digit? : Char → Option Nat) (cs : List Char) :
    Option (Value × List Char) := do
  let (ds, rest) ← digits digit? cs
  some (.integer (Digit.value base ds), rest)

def scanNumber : List Char → Option (Value × List Char)
  | '0' :: 'x' :: cs => scanBase 16 hex? cs
  | '0' :: 'o' :: cs => scanBase 8 octal? cs
  | '0' :: 'b' :: cs => scanBase 2 binary? cs
  | cs => (scanSpecial cs).or (scanDecimal cs)

/-- Characters that belong to no numeral; only a tab may stand between two pieces of one. -/
def isDelimiter (c : Char) : Bool :=
  c ∈ [' ', '\t', '\r', '\n', '#', '.', ',', '=', '[', ']', '\x7b', '\x7d']

/-- The characters at the start of a text that go on with a numeral, up to a delimiter. Tabs count
if another piece follows them; no piece after a tab starts with a quote. -/
def numeral (afterTab : Bool) : List Char → List Char
  | [] => []
  | c :: cs =>
    if c = '\t' then
      match numeral true cs with
      | [] => []
      | more => '\t' :: more
    else if isDelimiter c || (afterTab && (c == '"' || c == '\'')) then []
    else c :: numeral false cs

/-- Whether every underscore in a text, given as its first character and the others, stands
between two digits to the base sixteen. -/
def separates : Char → List Char → Bool
  | last, [] => last != '_'
  | last, c :: cs =>
    (last != '_' || (hex? c).isSome) && (c != '_' || (hex? last).isSome) && separates c cs

/-- Whether a numeral has the outline of an integer. Such a numeral is the mark of a base without
digits, or it starts like a decimal integer up to an underscore, has underscores only between
digits to the base sixteen, and has no letter for a power of ten. -/
def hasOutline : List Char → Bool
  | ['0', base] => base ∈ ['x', 'o', 'b']
  | spelling =>
    match (sign spelling).2 with
    | first :: others =>
      let later := others.dropWhile fun c => (decimal? c).isSome
      first != '0' && (decimal? first).isSome && later.head? == some '_' &&
        separates first others && 'e' ∉ later && 'E' ∉ later
    | [] => false

/-- Reads a numeral that has the outline of an integer. -/
def scanOutline (cs : List Char) : Option (Value × List Char) :=
  let spelling := numeral false cs
  if hasOutline spelling then
    some (.unreadable (String.ofList spelling), cs.drop spelling.length)
  else
    none

/-- Reads a whole numeral: a number, or else the outline of an integer. -/
def scan (cs : List Char) : Option (Value × List Char) :=
  ((scanNumber cs).filter fun (_, rest) => (numeral false rest).isEmpty).or (scanOutline cs)

example : hasOutline "1_0:30".toList ∧ hasOutline "0x".toList := by decide

example : ¬ hasOutline "1_e5".toList ∧ ¬ hasOutline "1_".toList := by decide

example : (scan "1_0:30\t]".toList).map Prod.snd = some ['\t', ']'] := by decide

example : (scan "1_2\tb]".toList).map Prod.snd = some [']'] := by decide

end CharacterSheet.Toml.Number
