import CharacterSheet.Character
import CharacterSheet.Config.Document
import CharacterSheet.Sheet.Addition
import CharacterSheet.Sheet.Edit

/-!
What can be done in a workshop, and what it answers. An action names the registers that it reads
and the one that it stores in; everything else it needs is part of it.
-/
namespace CharacterSheet

namespace Workshop

/-- One thing to do, with sources of type σ. -/
inductive Action (σ : Type) where
  | newEntry (entry : AbilityScore)
  | setEntryScore (score : UInt8)
  | setEntryProficient (proficient : Bool)
  | addEntry (entry : AbilityScore)
  | rollEntry (range : ScoreRange)
  | saveEntry (bonus : UInt8)
  | newSheet (target : String) (sheet : Sheet)
  | decodeSheet (target text : String)
  | copySheet (target origin : String)
  | showSheet (on : String)
  | compareSheets (left right : String)
  | rollSheet (target : String) (range : ScoreRange)
  | editSheet (on : String) (edit : Sheet.Edit)
  | readEntry (on : String) (ability : Ability)
  | lookupEntry (on key : String)
  | changeEntry (on key : String) (change : AbilityScore → AbilityScore)
  | addSheets (target left right : String) (byValue : Bool)
  | addInto (on right : String) (byValue : Bool)
  | newRace (target : String) (kind : RaceKind)
  | copyRace (target origin : String)
  | raceBonus (target race : String)
  | selectRace (target : Option String) (id : Int32)
  | drawRaceId
  | applyRace (race on : String)
  | newSource (source : σ)
  | drawWord
  | drawInts (count : Nat) (lo hi : Int32)
  | newConfig (config : Config)
  | setScoreRoll (min max : UInt8)
  | setProficiencyBonus (bonus : UInt8)
  | readConfig (text detail : String)
  | validateConfig
  | containsScore (score : UInt8)
  | newHero (target : String) (kind : RaceKind) (base : String)
  | combineHero (target race base : String)
  | rollHero (target : String) (id : Int32)
  | compareHeroes (left right : String)
  | copyHero (target origin : String)
  | heroRace (target hero : String)
  | heroBase (target hero : String)
  | heroScores (target hero : String)

/-- Any failure that an action can report. -/
inductive Failure where
  | ability (error : AbilityError)
  | config (error : ConfigError)
  | character (error : CharacterError)
  | text (error : Config.TextError)
  deriving DecidableEq, Repr

namespace Failure

def code : Failure → String
  | ability error => error.code
  | config error => error.code
  | character error => error.code
  | text error => error.code

def message : Failure → String
  | ability error => error.message
  | config error => error.message
  | character error => error.message
  | text error => error.message

end Failure

inductive Reply where
  | done
  | truth (b : Bool)
  | number (n : Int)
  | numbers (ns : List Int)
  | entry (entry : AbilityScore)
  | sheet (sheet : Sheet)
  | race (race : Option Race)
  | sheetAndRace (sheet : Sheet) (race : Race)
  | config (config : Config)
  | hero (hero : Character)
  | failed (failure : Failure)
  | notStored
  | notDecoded
  deriving DecidableEq, Repr

end Workshop
end CharacterSheet
