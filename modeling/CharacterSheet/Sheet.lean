import CharacterSheet.Ability
import CharacterSheet.AbilityScore

/-!
A sheet: exactly one entry for each of the six abilities, and the proficiency bonus they share. A
sheet is determined by its bonus and by what `get` answers for every ability.
-/
namespace CharacterSheet

/-- Six entries and the bonus on every proficient saving throw. -/
structure Sheet where
  proficiencyBonus : UInt8
  strength : AbilityScore
  dexterity : AbilityScore
  constitution : AbilityScore
  intelligence : AbilityScore
  wisdom : AbilityScore
  charisma : AbilityScore
  deriving DecidableEq, Repr

namespace Sheet

def get (s : Sheet) : Ability → AbilityScore
  | .strength => s.strength
  | .dexterity => s.dexterity
  | .constitution => s.constitution
  | .intelligence => s.intelligence
  | .wisdom => s.wisdom
  | .charisma => s.charisma

/-- The sheet with a given bonus and a given entry for every ability. -/
def tabulate (bonus : UInt8) (entry : Ability → AbilityScore) : Sheet where
  proficiencyBonus := bonus
  strength := entry .strength
  dexterity := entry .dexterity
  constitution := entry .constitution
  intelligence := entry .intelligence
  wisdom := entry .wisdom
  charisma := entry .charisma

@[simp] theorem proficiencyBonus_tabulate (bonus : UInt8) (entry : Ability → AbilityScore) :
    (tabulate bonus entry).proficiencyBonus = bonus := rfl

@[simp] theorem get_tabulate (bonus : UInt8) (entry : Ability → AbilityScore) (a : Ability) :
    (tabulate bonus entry).get a = entry a := by cases a <;> rfl

@[simp] theorem tabulate_get (s : Sheet) : tabulate s.proficiencyBonus s.get = s := rfl

/-- Two sheets with the same bonus and the same entries are the same sheet. -/
theorem ext_get {s t : Sheet} (hb : s.proficiencyBonus = t.proficiencyBonus)
    (he : ∀ a, s.get a = t.get a) : s = t := by
  rw [← tabulate_get s, ← tabulate_get t, hb, funext he]

/-- The sheet on which every ability has the same score and none is proficient. -/
def uniform (score : UInt8) : Sheet := tabulate 0 fun _ => ⟨score, false⟩

@[simp] theorem proficiencyBonus_uniform (score : UInt8) :
    (uniform score).proficiencyBonus = 0 := rfl

@[simp] theorem get_uniform (score : UInt8) (a : Ability) :
    (uniform score).get a = ⟨score, false⟩ := by simp [uniform]

instance : Inhabited Sheet := ⟨uniform 0⟩

/-- The sheet with the given scores, none of them proficient. -/
def ofScores (score : Ability → UInt8) : Sheet := tabulate 0 fun a => ⟨score a, false⟩

@[simp] theorem proficiencyBonus_ofScores (score : Ability → UInt8) :
    (ofScores score).proficiencyBonus = 0 := rfl

@[simp] theorem get_ofScores (score : Ability → UInt8) (a : Ability) :
    (ofScores score).get a = ⟨score a, false⟩ := by simp [ofScores]

/-- The sheet of exactly six scores listed in canonical order. -/
def ofList? : List UInt8 → Option Sheet
  | [str, dex, con, int, wis, cha] =>
    some (ofScores fun
      | .strength => str
      | .dexterity => dex
      | .constitution => con
      | .intelligence => int
      | .wisdom => wis
      | .charisma => cha)
  | _ => none

/-- The sheet with the entry of one ability replaced by what a change makes of it. -/
def modify (s : Sheet) (a : Ability) (change : AbilityScore → AbilityScore) : Sheet :=
  tabulate s.proficiencyBonus fun b => if b = a then change (s.get b) else s.get b

@[simp] theorem proficiencyBonus_modify (s : Sheet) (a : Ability)
    (change : AbilityScore → AbilityScore) :
    (s.modify a change).proficiencyBonus = s.proficiencyBonus := rfl

@[simp] theorem get_modify (s : Sheet) (a b : Ability) (change : AbilityScore → AbilityScore) :
    (s.modify a change).get b = if b = a then change (s.get b) else s.get b := by
  simp [modify]

def set (s : Sheet) (a : Ability) (score : UInt8) (proficient : Bool) : Sheet :=
  s.modify a fun _ => ⟨score, proficient⟩

/-- Replaces the score of an ability and keeps its mark. -/
def setScore (s : Sheet) (a : Ability) (score : UInt8) : Sheet :=
  s.modify a (·.withScore score)

/-- Replaces the mark of an ability and keeps its score. -/
def setProficient (s : Sheet) (a : Ability) (proficient : Bool) : Sheet :=
  s.modify a (·.withProficient proficient)

@[simp] theorem get_setScore (s : Sheet) (a b : Ability) (score : UInt8) :
    (s.setScore a score).get b = if b = a then (s.get b).withScore score else s.get b :=
  get_modify s a b _

@[simp] theorem get_setProficient (s : Sheet) (a b : Ability) (proficient : Bool) :
    (s.setProficient a proficient).get b =
      if b = a then (s.get b).withProficient proficient else s.get b :=
  get_modify s a b _

@[simp] theorem proficiencyBonus_setScore (s : Sheet) (a : Ability) (score : UInt8) :
    (s.setScore a score).proficiencyBonus = s.proficiencyBonus := rfl

@[simp] theorem proficiencyBonus_setProficient (s : Sheet) (a : Ability) (proficient : Bool) :
    (s.setProficient a proficient).proficiencyBonus = s.proficiencyBonus := rfl

def setProficiencyBonus (s : Sheet) (bonus : UInt8) : Sheet := tabulate bonus s.get

@[simp] theorem proficiencyBonus_setProficiencyBonus (s : Sheet) (bonus : UInt8) :
    (s.setProficiencyBonus bonus).proficiencyBonus = bonus := rfl

@[simp] theorem get_setProficiencyBonus (s : Sheet) (bonus : UInt8) (a : Ability) :
    (s.setProficiencyBonus bonus).get a = s.get a := by simp [setProficiencyBonus]

def score (s : Sheet) (a : Ability) : UInt8 := (s.get a).score

def modifier (s : Sheet) (a : Ability) : Int := (s.get a).modifier

def isProficient (s : Sheet) (a : Ability) : Bool := (s.get a).proficient

/-- The saving throw of an ability under the sheet's own bonus. -/
def save (s : Sheet) (a : Ability) : Int := (s.get a).save s.proficiencyBonus

/-- The abilities in canonical order, each with its entry. -/
def toList (s : Sheet) : List (Ability × AbilityScore) := Ability.all.map fun a => (a, s.get a)

@[simp] theorem length_toList (s : Sheet) : s.toList.length = 6 := by simp [toList]

/-- The entry of the ability that a key names. -/
def lookup (s : Sheet) (key : String) : Except AbilityError AbilityScore :=
  (Ability.parse key).map s.get

/-- Changes the entry of the ability that a key names; a key that names none gives no sheet. -/
def lookupModify (s : Sheet) (key : String) (change : AbilityScore → AbilityScore) :
    Except AbilityError Sheet :=
  (Ability.parse key).map (s.modify · change)

/-- The sum of two sheets adds their entries and keeps the bonus of the left one. -/
instance : Add Sheet := ⟨fun s t => tabulate s.proficiencyBonus fun a => s.get a + t.get a⟩

@[simp] theorem proficiencyBonus_add (s t : Sheet) :
    (s + t).proficiencyBonus = s.proficiencyBonus := rfl

@[simp] theorem get_add (s t : Sheet) (a : Ability) : (s + t).get a = s.get a + t.get a :=
  get_tabulate _ _ a

example : ((uniform 250 + uniform 10).score .wisdom, (uniform 3).toList.length) = (255, 6) := by
  decide

end Sheet
end CharacterSheet
