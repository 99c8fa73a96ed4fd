/-!
TOML values: the tree that a document stands for. The keys of a table are distinct and stand in
the order in which they were first written. An array of tables is an array like any other.
-/
namespace CharacterSheet.Toml

/-- A floating-point number as written: a decimal fraction, an infinity, or no number. -/
inductive Real where
  | decimal (negative : Bool) (digits : Nat) (exponent : Int)
  | infinity (negative : Bool)
  | nan
  deriving DecidableEq, Repr

structure Date where
  year : Nat
  month : Nat
  day : Nat
  deriving DecidableEq, Repr

/-- A time of day; a second may be a leap second. -/
structure Time where
  hour : Nat
  minute : Nat
  second : Nat
  fraction : List (Fin 10)
  deriving DecidableEq, Repr

/-- A date, a time, or both with an optional distance from universal time in minutes. -/
inductive Moment where
  | date (date : Date)
  | time (time : Time)
  | dateTime (date : Date) (time : Time) (offset : Option Int)
  deriving DecidableEq, Repr

/-- A TOML value. An unreadable value is a numeral with the outline of an integer that names no
number. -/
inductive Value where
  | string (s : String)
  | integer (n : Int)
  | unreadable (numeral : String)
  | real (x : Real)
  | boolean (b : Bool)
  | moment (m : Moment)
  | array (items : List Value)
  | table (entries : List (String × Value))
  deriving Repr, Inhabited

abbrev Entries := List (String × Value)

namespace Real

/-- Half a unit in the last place above the largest finite number of 64 bits. From here on a
decimal fraction is rounded to infinity. -/
def overflow : Nat := (Nat.pow 2 54 - 1) * Nat.pow 2 970

/-- Whether a number fits 64 bits without being rounded to infinity. A fraction far from the limit
is decided by the number of its digits, so that no power of ten is larger than the text it came
from. -/
def fits : Real → Bool
  | decimal _ digits exponent =>
    if digits = 0 then true
    else if 400 < (digits.log2 / 4 : Nat) + exponent then false
    else if (digits.log2 / 3 : Nat) + exponent < 300 then true
    else if exponent < 0 then digits < overflow * Nat.pow 10 exponent.natAbs
    else digits * Nat.pow 10 exponent.natAbs < overflow
  | infinity _ => true
  | nan => true

example : (decimal false 17976931348623157 292).fits ∧ ¬ (decimal true 18 307).fits := by
  decide +kernel

end Real

mutual

/-- Whether every number in a value can be held: integers in 128 bits, with or without a sign, and
floating-point numbers in 64. An unreadable numeral has no number to hold. -/
def Value.holds : Value → Bool
  | .integer n => -2 ^ 127 ≤ n && n < 2 ^ 128
  | .unreadable _ => false
  | .real x => x.fits
  | .array items => holdsItems items
  | .table entries => holdsEntries entries
  | .string _ | .boolean _ | .moment _ => true

def holdsItems : List Value → Bool
  | [] => true
  | item :: items => item.holds && holdsItems items

def holdsEntries : Entries → Bool
  | [] => true
  | (_, value) :: entries => value.holds && holdsEntries entries

end

end CharacterSheet.Toml
