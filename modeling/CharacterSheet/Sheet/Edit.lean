import CharacterSheet.Sheet

/-!
Changes to a sheet as data, so that a series of them can be carried out and reasoned about. A
change through a key that names no ability fails and leaves the sheet as it is.
-/
namespace CharacterSheet

namespace Sheet

inductive Edit where
  | set (ability : Ability) (score : UInt8) (proficient : Bool)
  | setScore (ability : Ability) (score : UInt8)
  | setProficient (ability : Ability) (proficient : Bool)
  | setProficiencyBonus (bonus : UInt8)
  | write (ability : Ability) (entry : AbilityScore)
  | lookupSet (key : String) (score : UInt8) (proficient : Bool)
  deriving DecidableEq, Repr

def edit (s : Sheet) : Edit → Except AbilityError Sheet
  | .set ability score proficient => .ok (s.set ability score proficient)
  | .setScore ability score => .ok (s.setScore ability score)
  | .setProficient ability proficient => .ok (s.setProficient ability proficient)
  | .setProficiencyBonus bonus => .ok (s.setProficiencyBonus bonus)
  | .write ability entry => .ok (s.modify ability fun _ => entry)
  | .lookupSet key score proficient => s.lookupModify key fun _ => ⟨score, proficient⟩

/-- Carries out changes in order; those that fail are passed over. -/
def editAll (s : Sheet) (edits : List Edit) : Sheet :=
  edits.foldl (fun s e => (s.edit e).toOption.getD s) s

@[simp] theorem editAll_nil (s : Sheet) : s.editAll [] = s := rfl

@[simp] theorem editAll_cons (s : Sheet) (e : Edit) (es : List Edit) :
    s.editAll (e :: es) = ((s.edit e).toOption.getD s).editAll es := rfl

end Sheet
end CharacterSheet
