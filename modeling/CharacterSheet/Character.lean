import CharacterSheet.Race.Selection
import CharacterSheet.Roll

/-!
A character: a race, the scores before its bonus, and the scores after it. Rolling a character
checks the configuration first and the race second, so a failed roll has drawn nothing.
-/
namespace CharacterSheet

/-- A race combined with a sheet. -/
structure Character where
  race : Race
  base : Sheet
  scores : Sheet
  deriving DecidableEq, Repr

/-- Reasons why no character can be rolled. -/
inductive CharacterError where
  | unknownRace (id : Int32)
  | config (error : ConfigError)
  deriving DecidableEq, Repr

namespace CharacterError

def code : CharacterError → String
  | unknownRace _ => "CHARACTER_UNKNOWN_RACE"
  | config error => error.code

def message : CharacterError → String
  | unknownRace id => "no race with identifier " ++ toString id.toInt
  | config error => error.message

end CharacterError

namespace Character

/-- The character of a race with given base scores. -/
def ofParts (race : Race) (base : Sheet) : Character := ⟨race, base, race.applyTo base⟩

/-- Rolls a character: a race by its number, or a random one for a negative number, and six scores
within the configured range. -/
def roll {σ : Type} [RandomSource σ] (raceId : Int32) (config : Config) :
    Draw σ (Except CharacterError Character) :=
  match config.validate with
  | .error error => pure (.error (.config error))
  | .ok () => do
    match ← Race.select raceId with
    | none => pure (.error (.unknownRace raceId))
    | some race =>
      let base ← Sheet.rollIn config.scoreRoll
      pure (.ok (ofParts race (base.setProficiencyBonus config.proficiencyBonus)))

end Character
end CharacterSheet
