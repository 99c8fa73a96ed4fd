import CharacterSheet.Text.Digit
import CharacterSheet.Toml.Value

/-!
Dates and times of TOML. A date must exist in the calendar; seconds may be left out; only a date
with a time can have an offset. A reader takes the longest moment at the start of a text.
-/
namespace CharacterSheet.Toml

/-- Whether a year has a twenty-ninth of February. -/
def isLeapYear (year : Nat) : Bool := year % 4 == 0 && (year % 100 != 0 || year % 400 == 0)

def daysInMonth (year month : Nat) : Nat :=
  if month = 2 then (if isLeapYear year then 29 else 28)
  else if month ∈ [4, 6, 9, 11] then 30
  else if 1 ≤ month ∧ month ≤ 12 then 31
  else 0

namespace Moment

def twoDigits : List Char → Option (Nat × List Char)
  | a :: b :: cs => do some (Digit.ofDecimals [← Digit.decimal? a, ← Digit.decimal? b], cs)
  | _ => none

def twoDigitsAfter (separator : Char) : List Char → Option (Nat × List Char)
  | c :: cs => if c = separator then twoDigits cs else none
  | [] => none

def scanDate (cs : List Char) : Option (Date × List Char) := do
  let (century, cs) ← twoDigits cs
  let (yearOfCentury, cs) ← twoDigits cs
  let year := 100 * century + yearOfCentury
  let (month, cs) ← twoDigitsAfter '-' cs
  let (day, rest) ← twoDigitsAfter '-' cs
  if 1 ≤ day ∧ day ≤ daysInMonth year month then some (⟨year, month, day⟩, rest) else none

/-- The digits after the point of a second; none if no point with digits follows. -/
def scanFraction : List Char → List (Fin 10) × List Char
  | '.' :: cs =>
    match Digit.takeDecimals cs with
    | ([], _) => ([], '.' :: cs)
    | (digits, rest) => (digits, rest)
  | cs => ([], cs)

/-- Reads a time of day; a time without seconds is at the start of its minute. -/
def scanTime (cs : List Char) : Option (Time × List Char) := do
  let (hour, cs) ← twoDigits cs
  let (minute, cs) ← twoDigitsAfter ':' cs
  if hour < 24 ∧ minute < 60 then
    match twoDigitsAfter ':' cs with
    | none => some (⟨hour, minute, 0, []⟩, cs)
    | some (second, cs) =>
      if second ≤ 60 then
        let (digits, rest) := scanFraction cs
        some (⟨hour, minute, second, digits⟩, rest)
      else
        none
  else
    none

/-- Reads the distance from universal time after its sign. -/
def scanDistance (cs : List Char) : Option (Nat × List Char) := do
  let (hour, cs) ← twoDigits cs
  let (minute, rest) ← twoDigitsAfter ':' cs
  if hour < 24 ∧ minute < 60 then some (60 * hour + minute, rest) else none

/-- Reads an offset in minutes, if one follows. -/
def scanOffset (cs : List Char) : Option Int × List Char :=
  match cs with
  | 'Z' :: rest => (some 0, rest)
  | 'z' :: rest => (some 0, rest)
  | '+' :: after =>
    match scanDistance after with
    | some (n, rest) => (some n, rest)
    | none => (none, cs)
  | '-' :: after =>
    match scanDistance after with
    | some (n, rest) => (some (-n), rest)
    | none => (none, cs)
  | _ => (none, cs)

/-- Reads the time that belongs to a date, after a letter T of either case or one space. -/
def scanTimeOfDate : List Char → Option (Time × List Char)
  | c :: cs => if c = 'T' ∨ c = 't' ∨ c = ' ' then scanTime cs else none
  | [] => none

def scan (cs : List Char) : Option (Moment × List Char) :=
  match scanDate cs with
  | some (day, rest) =>
    match scanTimeOfDate rest with
    | some (clock, rest) =>
      let (offset, rest) := scanOffset rest
      some (dateTime day clock offset, rest)
    | none => some (date day, rest)
  | none => (scanTime cs).map fun (clock, rest) => (time clock, rest)

example : scan "2024-02-29 07:32Z,".toList =
    some (dateTime ⟨2024, 2, 29⟩ ⟨7, 32, 0, []⟩ (some 0), [',']) := by decide

example : scan "2023-02-29".toList = none := by decide

end Moment
end CharacterSheet.Toml
