import CharacterSheet.Proofs.Race.Bonus
import CharacterSheet.Proofs.Sheet.Order
import Mathlib.Algebra.Ring.Parity

/-!
How far a race moves modifiers and saving throws. Both move by the same step, which is at most one:
a delta of two makes it wherever the sum fits a byte, and a delta of one on odd scores only.
-/
namespace CharacterSheet

/-- How far a modifier moves when a delta is added to its score and the sum is held at 255. -/
def modifierStep (delta score : ℕ) : ℤ := (min (score + delta) 255 / 2 : ℕ) - (score / 2 : ℕ)

section

variable {delta score : ℕ}

lemma modifierStep_eq_zero_or_one (hdelta : delta ≤ 2) (hscore : score ≤ 255) :
    modifierStep delta score = 0 ∨ modifierStep delta score = 1 := by
  rw [modifierStep]
  omega

lemma modifierStep_zero (hscore : score ≤ 255) : modifierStep 0 score = 0 := by
  rw [modifierStep, Nat.add_zero, Nat.min_eq_left hscore, Int.sub_self]

lemma modifierStep_one_eq_one_iff : modifierStep 1 score = 1 ↔ Odd score ∧ score < 255 := by
  rw [modifierStep, Nat.odd_iff]
  omega

lemma modifierStep_two_eq_one_iff : modifierStep 2 score = 1 ↔ score ≤ 253 := by
  rw [modifierStep]
  omega

end

lemma RaceKind.delta_le_two (k : RaceKind) (a : Ability) : k.delta a ≤ 2 := by
  cases k <;> cases a <;> decide

namespace Race

section

variable (k : RaceKind) (s : Sheet) (a : Ability)

lemma modifier_applyTo : ((ofKind k).applyTo s).modifier a =
    s.modifier a + modifierStep (k.delta a) (s.score a).toNat := by
  have hscore := toNat_score_applyTo k s a
  rw [Sheet.score] at hscore
  rw [Sheet.modifier, AbilityScore.modifier, modifierFor_eq, hscore, Sheet.modifier,
    AbilityScore.modifier, modifierFor_eq, modifierStep, Sheet.score]
  omega

/-- Marks and bonus stay as they are, so the saving throw moves with the modifier. -/
lemma save_applyTo : ((ofKind k).applyTo s).save a =
    s.save a + modifierStep (k.delta a) (s.score a).toNat := by
  rw [Sheet.save_eq, Sheet.save_eq, modifier_applyTo, isProficient_applyTo,
    proficiencyBonus_applyTo]
  omega

end

/-- Additions, modifiers and saving throws keep the order of sheets, and a race moves a modifier and
its saving throw together by nothing or by one, as the delta and the score tell. -/
theorem saves_keep_order_and_step_by_one :
    (∀ s t : Sheet, s ≤ t ↔
      (∀ a, s.score a ≤ t.score a ∧ (s.isProficient a → t.isProficient a)) ∧
        s.proficiencyBonus ≤ t.proficiencyBonus) ∧
    (∀ s s' t t' : Sheet, s ≤ s' → t ≤ t' → s + t ≤ s' + t') ∧
    (∀ s t : Sheet, s ≤ s + t) ∧
    (∀ s t : Sheet, s ≤ t → ∀ a, s.modifier a ≤ t.modifier a ∧ s.save a ≤ t.save a) ∧
    ∀ (k : RaceKind) (s : Sheet) (a : Ability),
      ((ofKind k).bonus.score a).toNat = k.delta a ∧ k.delta a ≤ 2 ∧
      ∃ step : ℤ, (step = 0 ∨ step = 1) ∧
        ((ofKind k).applyTo s).modifier a = s.modifier a + step ∧
        ((ofKind k).applyTo s).save a = s.save a + step ∧
        (k.delta a = 2 → (step = 1 ↔ s.score a ≤ 253)) ∧
        (k.delta a = 1 → (step = 1 ↔ Odd (s.score a).toNat ∧ s.score a < 255)) ∧
        (k.delta a = 0 → step = 0) := by
  refine ⟨fun _ _ => Sheet.le_iff, fun _ _ _ _ => Sheet.add_le_add, Sheet.le_add_right,
    fun _ _ h a => ⟨Sheet.modifier_mono h a, Sheet.save_mono h a⟩, fun k s a => ?_⟩
  have hscore := s.toNat_score_le a
  have hdelta := k.delta_le_two a
  refine ⟨RaceKind.toNat_score_bonusSheet k a, hdelta, modifierStep (k.delta a) (s.score a).toNat,
    modifierStep_eq_zero_or_one hdelta hscore, modifier_applyTo k s a, save_applyTo k s a,
    fun h => ?_, fun h => ?_, fun h => ?_⟩
  · rw [h, UInt8.le_iff_toNat_le]
    exact modifierStep_two_eq_one_iff
  · rw [h, UInt8.lt_iff_toNat_lt]
    exact modifierStep_one_eq_one_iff
  · rw [h]
    exact modifierStep_zero hscore

/-- A hill dwarf gains a point of wisdom at nine, and none of constitution at 254. -/
theorem hill_dwarf_steps_at_the_edges :
    let low := Sheet.uniform 9
    let high := (Sheet.uniform 254).setProficient .wisdom true
    (low ≤ high ∧ low + low ≤ high + high ∧ low ≤ low + high ∧
      low.save .wisdom ≤ high.save .wisdom) ∧
    (RaceKind.hillDwarf.delta .wisdom = 1 ∧
      ((ofKind .hillDwarf).applyTo low).save .wisdom = low.save .wisdom + 1) ∧
    RaceKind.hillDwarf.delta .constitution = 2 ∧
      ((ofKind .hillDwarf).applyTo high).save .constitution = high.save .constitution := by
  intro low high
  obtain ⟨-, hadd, hright, hsave, hstep⟩ := saves_keep_order_and_step_by_one
  have hle : low ≤ high := by decide
  obtain ⟨-, -, one, -, -, hone, -, hodd, -⟩ := hstep .hillDwarf low .wisdom
  obtain ⟨-, -, none, hnone, -, hsame, hfits, -⟩ := hstep .hillDwarf high .constitution
  have hrises : one = 1 := (hodd (by decide)).mpr (by decide)
  have hstays : none = 0 :=
    hnone.resolve_right fun h => absurd ((hfits (by decide)).mp h) (by decide)
  rw [hrises] at hone
  rw [hstays, Int.add_zero] at hsame
  exact ⟨⟨hle, hadd _ _ _ _ hle hle, hright _ _, (hsave _ _ hle _).2⟩, ⟨by decide, hone⟩,
    by decide, hsame⟩

end Race
end CharacterSheet
