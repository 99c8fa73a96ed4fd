import CharacterSheet.Proofs.Sheet.Sum
import CharacterSheet.Race.Basic

/-!
What a race adds to a sheet. The bonus sheet of a race carries no mark and no proficiency bonus, and
its scores are the race's own deltas together with those of its parent.
-/
namespace CharacterSheet

namespace RaceKind

/-- What a list of bonuses adds to an ability. -/
def sumFor (a : Ability) (bonuses : List (Ability × UInt8)) : ℕ :=
  ((bonuses.filter (·.1 = a)).map fun bonus => bonus.2.toNat).sum

/-- What a race adds to an ability: its own bonuses and those of its parent. -/
def delta (k : RaceKind) (a : Ability) : ℕ :=
  sumFor a k.ownBonuses + k.parent.elim 0 (sumFor a ·.ownBonuses)

lemma sumFor_cons (a b : Ability) (n : UInt8) (bonuses : List (Ability × UInt8)) :
    sumFor a ((b, n) :: bonuses) = (if b = a then n.toNat else 0) + sumFor a bonuses := by
  by_cases h : b = a <;> simp [sumFor, h]

lemma delta_of_parent {k p : RaceKind} (h : k.parent = some p) (a : Ability) :
    k.delta a = p.delta a + sumFor a k.ownBonuses := by
  rw [delta, delta, h, parent_parent h, Option.elim_some, Option.elim_none]
  omega

lemma proficiencyBonus_setOwnBonuses (k : RaceKind) (s : Sheet) :
    (k.setOwnBonuses s).proficiencyBonus = s.proficiencyBonus := by
  unfold setOwnBonuses
  induction k.ownBonuses generalizing s with
  | nil => rfl
  | cons bonus bonuses ih => exact ih _

lemma isProficient_setOwnBonuses (k : RaceKind) (s : Sheet) (a : Ability) :
    (k.setOwnBonuses s).isProficient a = s.isProficient a := by
  unfold setOwnBonuses
  induction k.ownBonuses generalizing s with
  | nil => rfl
  | cons bonus bonuses ih =>
    obtain ⟨b, n⟩ := bonus
    have hmark : (s.setScore b n).isProficient a = s.isProficient a := by
      rw [Sheet.isProficient, Sheet.get_setScore]
      split <;> rfl
    exact (ih _).trans hmark

/-- What holds of the sheet of zeros and is kept when bonuses are set holds of every bonus sheet. -/
lemma bonusSheet_of_kept {P : Sheet → Prop} (hzero : P (.uniform 0))
    (hset : ∀ k s, P s → P (setOwnBonuses k s)) (k : RaceKind) : P k.bonusSheet := by
  have hroot : ∀ p : RaceKind, p.parent = none → P p.bonusSheet := by
    intro p hp
    rw [bonusSheet_eq, hp]
    exact hset p _ hzero
  cases hparent : k.parent with
  | none => exact hroot k hparent
  | some p =>
    rw [bonusSheet_eq, hparent]
    exact hset k _ (hroot p (parent_parent hparent))

@[simp] lemma proficiencyBonus_bonusSheet (k : RaceKind) : k.bonusSheet.proficiencyBonus = 0 := by
  apply bonusSheet_of_kept (P := fun s => s.proficiencyBonus = 0) rfl
  intro k s hs
  rw [proficiencyBonus_setOwnBonuses, hs]

@[simp] lemma isProficient_bonusSheet (k : RaceKind) (a : Ability) :
    k.bonusSheet.isProficient a = false := by
  apply bonusSheet_of_kept (P := fun s => s.isProficient a = false)
  · rw [Sheet.isProficient, Sheet.get_uniform]
  · intro k s hs
    rw [isProficient_setOwnBonuses, hs]

/-- Setting the own bonuses on top of the parent's adds them, since no subrace sets a score that its
parent has set. -/
lemma toNat_score_bonusSheet (k : RaceKind) (a : Ability) :
    (k.bonusSheet.score a).toNat = k.delta a := by
  cases k <;> cases a <;> rfl

end RaceKind

namespace Race

lemma toNat_score_applyTo (k : RaceKind) (s : Sheet) (a : Ability) :
    (((ofKind k).applyTo s).score a).toNat = min ((s.score a).toNat + k.delta a) 255 := by
  rw [applyTo, Sheet.toNat_score_add, bonus_ofKind, RaceKind.toNat_score_bonusSheet]

@[simp] lemma isProficient_applyTo (k : RaceKind) (s : Sheet) (a : Ability) :
    ((ofKind k).applyTo s).isProficient a = s.isProficient a := by
  rw [applyTo, Sheet.isProficient_add, bonus_ofKind, RaceKind.isProficient_bonusSheet,
    Bool.or_false]

end Race
end CharacterSheet
