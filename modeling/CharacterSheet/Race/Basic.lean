import CharacterSheet.Race.Kind
import CharacterSheet.Sheet

/-!
A race with the sheet of bonuses that it adds to a character's scores. The bonuses of a subrace
are those of its parent with its own set on top.
-/
namespace CharacterSheet

namespace RaceKind

/-- The scores that a race sets beyond those of its parent. -/
def ownBonuses : RaceKind → List (Ability × UInt8)
  | human => Ability.all.map (·, 1)
  | dwarf => [(.constitution, 2)]
  | hillDwarf => [(.wisdom, 1)]
  | elf => [(.dexterity, 2)]
  | highElf => [(.intelligence, 1)]

/-- A sheet with a race's own bonuses set on top of it. -/
def setOwnBonuses (k : RaceKind) (s : Sheet) : Sheet :=
  k.ownBonuses.foldl (fun s (ability, delta) => s.setScore ability delta) s

/-- A parent has no parent of its own. -/
theorem parent_parent {k p : RaceKind} (h : k.parent = some p) : p.parent = none := by
  cases k <;> cases p <;> simp_all [parent]

def bonusSheet (k : RaceKind) : Sheet :=
  k.setOwnBonuses <|
    match k.parent with
    | some p => p.setOwnBonuses (Sheet.uniform 0)
    | none => Sheet.uniform 0

/-- The bonus sheet of a race is its own bonuses set on top of the bonus sheet of its parent. -/
theorem bonusSheet_eq (k : RaceKind) :
    k.bonusSheet = k.setOwnBonuses (k.parent.elim (Sheet.uniform 0) bonusSheet) := by
  rw [bonusSheet]
  cases hparent : k.parent with
  | none => rfl
  | some p =>
    rw [Option.elim_some, bonusSheet, parent_parent hparent]

end RaceKind

/-- A race together with its bonuses. -/
structure Race where
  kind : RaceKind
  bonus : Sheet
  deriving DecidableEq, Repr

namespace Race

/-- The race of a kind with the bonuses of that kind. -/
def ofKind (kind : RaceKind) : Race := ⟨kind, kind.bonusSheet⟩

@[simp] theorem kind_ofKind (kind : RaceKind) : (ofKind kind).kind = kind := rfl

@[simp] theorem bonus_ofKind (kind : RaceKind) : (ofKind kind).bonus = kind.bonusSheet := rfl

def id (r : Race) : Int32 := r.kind.id

def name (r : Race) : String := r.kind.name

instance : ToString Race := ⟨name⟩

/-- Adds the bonuses to a sheet, which keeps its own proficiency bonus. -/
def applyTo (r : Race) (s : Sheet) : Sheet := s + r.bonus

@[simp] theorem proficiencyBonus_applyTo (r : Race) (s : Sheet) :
    (r.applyTo s).proficiencyBonus = s.proficiencyBonus := rfl

@[simp] theorem get_applyTo (r : Race) (s : Sheet) (a : Ability) :
    (r.applyTo s).get a = s.get a + r.bonus.get a := Sheet.get_add _ _ _

example : Ability.all.map (ofKind .hillDwarf).bonus.score = [0, 0, 2, 0, 1, 0] := by decide

end Race
end CharacterSheet
