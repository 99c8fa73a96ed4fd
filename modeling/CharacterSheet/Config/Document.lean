import CharacterSheet.Config
import CharacterSheet.Toml.Document

/-!
Configurations written as TOML documents. Three slots are read: the proficiency bonus, and the two
bounds of the range of scores, which is a table or an array of its bounds in order; a moment counts
as a table with neither. An absent slot keeps its standard value on its own; a slot that is present
must hold a byte. Nothing else in the document matters, except that its numbers can be held.
-/
namespace CharacterSheet.Config

open Toml (Entries)

/-- Reasons why a text gives no configuration. What is wrong with a malformed text is told in the
words of whoever reads the document. -/
inductive TextError where
  | malformed (detail : String)
  | invalid (error : ConfigError)
  deriving DecidableEq, Repr

namespace TextError

def code : TextError → String
  | malformed _ => "TOML_PARSE"
  | invalid error => error.code

def message : TextError → String
  | malformed detail => "Failed to parse config TOML: " ++ detail
  | invalid error => error.message

end TextError

/-- The byte that a value holds. -/
def byte? : Toml.Value → Option UInt8
  | .integer n => if 0 ≤ n ∧ n < 256 then some (UInt8.ofNat n.toNat) else none
  | _ => none

/-- The byte in a slot, or the standard value of an absent one. -/
def slot? (standard : UInt8) : Option Toml.Value → Option UInt8
  | none => some standard
  | some value => byte? value

/-- Whether the numbers of all entries can be held, those of the named keys apart. -/
def othersHold (names : List String) (entries : Entries) : Bool :=
  Toml.holdsEntries (entries.filter fun (key, _) => key ∉ names)

/-- The range of scores that a value holds: a table of its bounds, or an array that begins with
them. Items of the array after the second are not looked at. A moment stands for a table of its own
parts, none of which is a bound. -/
def range? : Toml.Value → Option ScoreRange
  | .table entries =>
    if othersHold ["min", "max"] entries then do
      let min ← slot? ScoreRange.standard.min (entries.lookup "min")
      let max ← slot? ScoreRange.standard.max (entries.lookup "max")
      some ⟨min, max⟩
    else
      none
  | .array items => do
    let min ← slot? ScoreRange.standard.min items[0]?
    let max ← slot? ScoreRange.standard.max items[1]?
    some ⟨min, max⟩
  | .moment _ => some ScoreRange.standard
  | _ => none

/-- The configuration that a document states, whether it is valid or not. -/
def ofEntries? (entries : Entries) : Option Config :=
  if othersHold ["score_roll", "proficiency_bonus"] entries then do
    let range ← match entries.lookup "score_roll" with
      | none => some ScoreRange.standard
      | some value => range? value
    let bonus ← slot? standard.proficiencyBonus (entries.lookup "proficiency_bonus")
    some ⟨range, bonus⟩
  else
    none

/-- The configuration that a text states. The range is validated after everything has been read. The
detail is what is said of the text if it states none. -/
def parse (text detail : String) : Except TextError Config :=
  match (Entries.read? text).bind ofEntries? with
  | none => .error (.malformed detail)
  | some config =>
    match config.validate with
    | .error error => .error (.invalid error)
    | .ok () => .ok config

example : (parse "score_roll.max = 20 # wide" "").toOption = some ⟨⟨8, 20⟩, 2⟩ := by decide +kernel

example : (parse "[score_roll]\nmin = 19" "").toOption = none := by decide +kernel

example : (parse "score_roll = [3, 20, 0x]" "").toOption = some ⟨⟨3, 20⟩, 2⟩ := by decide +kernel

example : (parse "score_roll = 07:32" "").toOption = some standard := by decide +kernel

end CharacterSheet.Config
