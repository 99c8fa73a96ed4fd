import CharacterSheet.Sheet

/-!
The ways to write an addition of sheets. A sum is a new sheet, or it replaces the sheet on its
left; either way the operands are lent or given away.
-/
namespace CharacterSheet

namespace Sheet

/-- The sum of two sheets that are given away. -/
def sumOfValues (s t : Sheet) : Sheet := s + t

/-- Replaces a sheet by its sum with a sheet that is lent. -/
def addIn (t : Sheet) : StateM Sheet Unit := modifyThe Sheet (· + t)

/-- Replaces a sheet by its sum with a sheet that is given away. -/
def addInValue (t : Sheet) : StateM Sheet Unit := addIn t

inductive Addition where
  | fresh (byValue : Bool)
  | inPlace (byValue : Bool)
  deriving DecidableEq, Repr

namespace Addition

/-- What an addition of two sheets leaves: the new sheet, or the one that was on the left. -/
def apply (form : Addition) (s t : Sheet) : Sheet :=
  match form with
  | fresh false => s + t
  | fresh true => sumOfValues s t
  | inPlace false => ((addIn t).run s).2
  | inPlace true => ((addInValue t).run s).2

/-- However an addition is written, it leaves the sum. -/
@[simp] theorem apply_eq (form : Addition) (s t : Sheet) : form.apply s t = s + t := by
  cases form with
  | fresh byValue => cases byValue <;> rfl
  | inPlace byValue => cases byValue <;> rfl

end Addition
end Sheet
end CharacterSheet
