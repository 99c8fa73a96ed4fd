import CharacterSheet.Proofs.Sheet.Sum
import Mathlib.Order.Defs.PartialOrder

/-!
An order on entries and on sheets. A sheet is below another if no score, no mark and not the bonus
is above that of the other. Additions keep the order, and so do modifiers and saving throws.
-/
namespace CharacterSheet

lemma modifierFor_eq (score : UInt8) : modifierFor score = (score.toNat : ℤ) / 2 - 5 := by
  rw [modifierFor, baseline, Int.fdiv_eq_ediv_of_nonneg _ (by decide)]
  omega

namespace AbilityScore

/-- One entry is below another if its score is, and if it is proficient only where the other is. -/
instance : PartialOrder AbilityScore where
  le x y := x.score ≤ y.score ∧ (x.proficient → y.proficient)
  le_refl x := ⟨UInt8.le_refl x.score, id⟩
  le_trans _ _ _ h k := ⟨UInt8.le_trans h.1 k.1, k.2 ∘ h.2⟩
  le_antisymm x y h k := by
    have hscore : x.score = y.score := UInt8.le_antisymm h.1 k.1
    have hmark : x.proficient = y.proficient := Bool.eq_iff_iff.mpr ⟨h.2, k.2⟩
    cases x
    cases y
    simp_all

instance (x y : AbilityScore) : Decidable (x ≤ y) :=
  inferInstanceAs (Decidable (x.score ≤ y.score ∧ (x.proficient → y.proficient)))

lemma add_le_add {x x' y y' : AbilityScore} (hx : x ≤ x') (hy : y ≤ y') : x + y ≤ x' + y' := by
  constructor
  · have hleft := UInt8.le_iff_toNat_le.mp hx.1
    have hright := UInt8.le_iff_toNat_le.mp hy.1
    rw [UInt8.le_iff_toNat_le, score_add, score_add, toNat_saturatingAdd, toNat_saturatingAdd]
    omega
  · rw [proficient_add, proficient_add, Bool.or_eq_true, Bool.or_eq_true]
    exact Or.imp hx.2 hy.2

lemma le_add_right (x y : AbilityScore) : x ≤ x + y := by
  constructor
  · have hlt := x.score.toNat_lt
    rw [UInt8.le_iff_toNat_le, score_add, toNat_saturatingAdd]
    omega
  · intro h
    rw [proficient_add, h, Bool.true_or]

lemma modifier_mono {x y : AbilityScore} (h : x ≤ y) : x.modifier ≤ y.modifier := by
  have hscore := UInt8.le_iff_toNat_le.mp h.1
  rw [modifier, modifier, modifierFor_eq, modifierFor_eq]
  omega

/-- A proficient entry is followed by proficient ones only, so the bonus is never lost on the way
up. -/
lemma save_mono {x y : AbilityScore} {m n : UInt8} (h : x ≤ y) (hbonus : m ≤ n) :
    x.save m ≤ y.save n := by
  have hmodifier := modifier_mono h
  have hle := UInt8.le_iff_toNat_le.mp hbonus
  rw [save, save]
  by_cases hx : x.proficient
  · rw [if_pos hx, if_pos (h.2 hx)]
    omega
  · rw [if_neg hx]
    split <;> omega

end AbilityScore

namespace Sheet

/-- One sheet is below another if all its entries are and its bonus is. -/
instance : PartialOrder Sheet where
  le s t := (∀ a, s.get a ≤ t.get a) ∧ s.proficiencyBonus ≤ t.proficiencyBonus
  le_refl s := ⟨fun a => le_refl (s.get a), UInt8.le_refl _⟩
  le_trans _ _ _ h k := ⟨fun a => le_trans (h.1 a) (k.1 a), UInt8.le_trans h.2 k.2⟩
  le_antisymm _ _ h k := ext_get (UInt8.le_antisymm h.2 k.2) fun a => le_antisymm (h.1 a) (k.1 a)

instance (s t : Sheet) : Decidable (s ≤ t) :=
  decidable_of_iff ((Ability.all.all fun a => s.get a ≤ t.get a) ∧
      s.proficiencyBonus ≤ t.proficiencyBonus) <| and_congr_left' <| by
    simp [List.all_eq_true, Ability.mem_all]

lemma le_iff {s t : Sheet} : s ≤ t ↔
    (∀ a, s.score a ≤ t.score a ∧ (s.isProficient a → t.isProficient a)) ∧
      s.proficiencyBonus ≤ t.proficiencyBonus := Iff.rfl

lemma add_le_add {s s' t t' : Sheet} (hs : s ≤ s') (ht : t ≤ t') : s + t ≤ s' + t' := by
  refine ⟨fun a => ?_, hs.2⟩
  rw [get_add, get_add]
  exact AbilityScore.add_le_add (hs.1 a) (ht.1 a)

lemma le_add_right (s t : Sheet) : s ≤ s + t := by
  refine ⟨fun a => ?_, UInt8.le_refl _⟩
  rw [get_add]
  exact AbilityScore.le_add_right _ _

/-- Adding to a sheet lowers no score. -/
lemma score_le_score_add (s t : Sheet) (a : Ability) : s.score a ≤ (s + t).score a :=
  ((le_add_right s t).1 a).1

/-- The saving throw is the modifier and what the mark adds to it. -/
lemma save_eq (s : Sheet) (a : Ability) :
    s.save a = s.modifier a + if s.isProficient a then (s.proficiencyBonus.toNat : ℤ) else 0 := by
  rw [save, AbilityScore.save, modifier, isProficient]
  split
  · rfl
  · rw [Int.add_zero]

lemma modifier_mono {s t : Sheet} (h : s ≤ t) (a : Ability) : s.modifier a ≤ t.modifier a :=
  AbilityScore.modifier_mono (h.1 a)

lemma save_mono {s t : Sheet} (h : s ≤ t) (a : Ability) : s.save a ≤ t.save a :=
  AbilityScore.save_mono (h.1 a) h.2

end Sheet
end CharacterSheet
