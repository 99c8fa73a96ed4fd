/-!
The numbers that govern how a character is made: the range in which scores are rolled and the
proficiency bonus of a new character. A range may be stated in the wrong order; only `validate`
refuses it.
-/
namespace CharacterSheet

structure ScoreRange where
  min : UInt8
  max : UInt8
  deriving DecidableEq, Repr

namespace ScoreRange

/-- The range used where none is given. -/
def standard : ScoreRange := ⟨8, 18⟩

instance : Inhabited ScoreRange := ⟨standard⟩

def contains (range : ScoreRange) (score : UInt8) : Bool :=
  range.min ≤ score && score ≤ range.max

end ScoreRange

structure Config where
  scoreRoll : ScoreRange
  proficiencyBonus : UInt8
  deriving DecidableEq, Repr

inductive ConfigError where
  | invalidScoreRange (range : ScoreRange)
  deriving DecidableEq, Repr

namespace ConfigError

def code : ConfigError → String
  | invalidScoreRange _ => "CONFIG_INVALID_SCORE_RANGE"

def message : ConfigError → String
  | invalidScoreRange range =>
    "score roll range " ++ toString range.min.toNat ++ "..=" ++ toString range.max.toNat ++
      " is empty"

end ConfigError

namespace Config

/-- The configuration used where none is given. -/
def standard : Config := ⟨ScoreRange.standard, 2⟩

instance : Inhabited Config := ⟨standard⟩

def withScoreRoll (config : Config) (min max : UInt8) : Config :=
  ⟨⟨min, max⟩, config.proficiencyBonus⟩

def withProficiencyBonus (config : Config) (bonus : UInt8) : Config := ⟨config.scoreRoll, bonus⟩

/-- Refuses a range that holds no score. -/
def validate (config : Config) : Except ConfigError Unit :=
  if config.scoreRoll.max < config.scoreRoll.min then
    .error (.invalidScoreRange config.scoreRoll)
  else
    .ok ()

theorem validate_eq_ok_iff {config : Config} :
    config.validate = .ok () ↔ config.scoreRoll.min ≤ config.scoreRoll.max := by
  simp only [validate]
  split <;> simp_all

end Config
end CharacterSheet
