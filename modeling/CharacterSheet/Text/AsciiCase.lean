/-!
Comparison of texts that ignores the case of the letters A to Z. Every other character stands
only for itself, so a look-alike from another alphabet never matches.
-/
namespace CharacterSheet.AsciiCase

/-- The text with the letters A to Z made small. -/
def fold (cs : List Char) : List Char := cs.map Char.toLower

@[simp] theorem fold_nil : fold [] = [] := rfl

@[simp] theorem fold_cons (c : Char) (cs : List Char) : fold (c :: cs) = c.toLower :: fold cs := rfl

/-- Two texts agree up to the case of the letters A to Z. -/
def Same (cs ds : List Char) : Prop := fold cs = fold ds

instance (cs ds : List Char) : Decidable (Same cs ds) := inferInstanceAs (Decidable (_ = _))

theorem Same.rfl {cs : List Char} : Same cs cs := Eq.refl _

theorem Same.symm {cs ds : List Char} (h : Same cs ds) : Same ds cs := Eq.symm h

theorem Same.trans {cs ds es : List Char} (h : Same cs ds) (k : Same ds es) : Same cs es :=
  Eq.trans h k

example : Same "StR".toList "str".toList := by decide

example : ¬ Same "ſtr".toList "str".toList := by decide

end CharacterSheet.AsciiCase
