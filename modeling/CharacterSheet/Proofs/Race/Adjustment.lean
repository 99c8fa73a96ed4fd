import CharacterSheet.Proofs.Race.Bonus
import CharacterSheet.Sheet.Edit

/-!
Races applied to a sheet in between changes to its marks and its bonus. The two kinds of change do
not disturb each other: scores depend on the races alone, in any order, and marks and bonus on the
edits alone, in their order.
-/
namespace CharacterSheet

namespace Sheet

/-- Raises the score of an ability, held at 255, and keeps its mark. -/
def raise (s : Sheet) (a : Ability) (delta : UInt8) : Sheet := s.modify a (· + ⟨delta, false⟩)

/-- Raises scores one after another. -/
def raiseAll (s : Sheet) : List (Ability × UInt8) → Sheet
  | [] => s
  | (a, delta) :: bonuses => (s.raise a delta).raiseAll bonuses

lemma toNat_score_raise (s : Sheet) (a b : Ability) (delta : UInt8) :
    ((s.raise b delta).score a).toNat =
      min ((s.score a).toNat + if b = a then delta.toNat else 0) 255 := by
  rw [score, raise, get_modify]
  by_cases h : a = b
  · subst h
    rw [if_pos rfl, if_pos rfl, AbilityScore.score_add, AbilityScore.toNat_saturatingAdd]
    rfl
  · have hle := toNat_score_le s a
    rw [if_neg h, if_neg (Ne.symm h), Nat.add_zero]
    exact (Nat.min_eq_left hle).symm

lemma isProficient_raise (s : Sheet) (a b : Ability) (delta : UInt8) :
    (s.raise b delta).isProficient a = s.isProficient a := by
  rw [isProficient, raise, get_modify]
  split
  · rw [AbilityScore.proficient_add, Bool.or_false]
    rfl
  · rfl

lemma toNat_score_raiseAll (s : Sheet) (bonuses : List (Ability × UInt8)) (a : Ability) :
    ((s.raiseAll bonuses).score a).toNat =
      min ((s.score a).toNat + RaceKind.sumFor a bonuses) 255 := by
  induction bonuses generalizing s with
  | nil =>
    have hle := toNat_score_le s a
    rw [raiseAll, RaceKind.sumFor, List.filter_nil, List.map_nil, List.sum_nil]
    omega
  | cons bonus bonuses ih =>
    obtain ⟨b, delta⟩ := bonus
    rw [raiseAll, ih, toNat_score_raise, RaceKind.sumFor_cons]
    omega

lemma isProficient_raiseAll (s : Sheet) (bonuses : List (Ability × UInt8)) (a : Ability) :
    (s.raiseAll bonuses).isProficient a = s.isProficient a := by
  induction bonuses generalizing s with
  | nil => rfl
  | cons bonus bonuses ih =>
    rw [raiseAll, ih, isProficient_raise]

lemma proficiencyBonus_raiseAll (s : Sheet) (bonuses : List (Ability × UInt8)) :
    (s.raiseAll bonuses).proficiencyBonus = s.proficiencyBonus := by
  induction bonuses generalizing s with
  | nil => rfl
  | cons bonus bonuses ih =>
    rw [raiseAll, ih]
    rfl

/-- Sheets that agree in their marks and their bonus, whatever the scores. -/
def SameMarks (s t : Sheet) : Prop :=
  s.proficiencyBonus = t.proficiencyBonus ∧ ∀ a, s.isProficient a = t.isProficient a

lemma SameMarks.setProficient {s t : Sheet} (h : SameMarks s t) (a : Ability) (proficient : Bool) :
    SameMarks (s.setProficient a proficient) (t.setProficient a proficient) := by
  refine ⟨h.1, fun b => ?_⟩
  rw [isProficient, isProficient, get_setProficient, get_setProficient]
  by_cases hb : b = a
  · rw [if_pos hb, if_pos hb]
    rfl
  · rw [if_neg hb, if_neg hb]
    exact h.2 b

lemma SameMarks.setProficiencyBonus {s t : Sheet} (h : SameMarks s t) (bonus : UInt8) :
    SameMarks (s.setProficiencyBonus bonus) (t.setProficiencyBonus bonus) := by
  refine ⟨rfl, fun a => ?_⟩
  rw [isProficient, isProficient, get_setProficiencyBonus, get_setProficiencyBonus]
  exact h.2 a

lemma SameMarks.applyTo {s t : Sheet} (h : SameMarks s t) (k : RaceKind) :
    SameMarks ((Race.ofKind k).applyTo s) t :=
  ⟨h.1, fun a => (Race.isProficient_applyTo k s a).trans (h.2 a)⟩

end Sheet

/-- One thing done to a sheet: a race is applied, a mark is set, or the bonus is set. -/
inductive Adjustment where
  | race (kind : RaceKind)
  | mark (ability : Ability) (proficient : Bool)
  | bonus (bonus : UInt8)
  deriving DecidableEq, Repr

namespace Adjustment

def apply (s : Sheet) : Adjustment → Sheet
  | race kind => (Race.ofKind kind).applyTo s
  | mark ability proficient => s.setProficient ability proficient
  | bonus n => s.setProficiencyBonus n

def applyAll (s : Sheet) (steps : List Adjustment) : Sheet := steps.foldl apply s

/-- The races among the steps, in their order. -/
def races : List Adjustment → List RaceKind
  | [] => []
  | race kind :: steps => kind :: races steps
  | mark _ _ :: steps => races steps
  | bonus _ :: steps => races steps

/-- The edits among the steps, in their order. -/
def edits : List Adjustment → List Sheet.Edit
  | [] => []
  | race _ :: steps => edits steps
  | mark ability proficient :: steps => .setProficient ability proficient :: edits steps
  | bonus n :: steps => .setProficiencyBonus n :: edits steps

lemma applyAll_cons (s : Sheet) (step : Adjustment) (steps : List Adjustment) :
    applyAll s (step :: steps) = applyAll (apply s step) steps := rfl

lemma races_replicate (n : ℕ) (kind : RaceKind) :
    races (List.replicate n (race kind)) = List.replicate n kind := by
  induction n with
  | zero => rfl
  | succ n ih => rw [List.replicate_succ, List.replicate_succ, races, ih]

lemma score_apply_mark (s : Sheet) (a b : Ability) (proficient : Bool) :
    (apply s (mark b proficient)).score a = s.score a := by
  rw [Sheet.score, apply, Sheet.get_setProficient]
  split <;> rfl

lemma score_apply_bonus (s : Sheet) (a : Ability) (n : UInt8) :
    (apply s (bonus n)).score a = s.score a := by
  rw [Sheet.score, apply, Sheet.get_setProficiencyBonus]
  rfl

lemma toNat_score_applyAll (s : Sheet) (steps : List Adjustment) (a : Ability) :
    ((applyAll s steps).score a).toNat =
      min ((s.score a).toNat + ((races steps).map (·.delta a)).sum) 255 := by
  induction steps generalizing s with
  | nil =>
    have hle := s.toNat_score_le a
    rw [races, List.map_nil, List.sum_nil, Nat.add_zero, Nat.min_eq_left hle]
    rfl
  | cons step steps ih =>
    rw [applyAll_cons, ih]
    cases step with
    | race kind =>
      rw [apply, Race.toNat_score_applyTo, races, List.map_cons, List.sum_cons]
      omega
    | mark b proficient => rw [score_apply_mark, races]
    | bonus n => rw [score_apply_bonus, races]

/-- Races leave no trace in marks and bonus. -/
lemma sameMarks_applyAll {s t : Sheet} (h : s.SameMarks t) (steps : List Adjustment) :
    (applyAll s steps).SameMarks (t.editAll (edits steps)) := by
  induction steps generalizing s t with
  | nil => exact h
  | cons step steps ih =>
    rw [applyAll_cons]
    cases step with
    | race kind => exact ih (h.applyTo kind)
    | mark a proficient => exact ih (h.setProficient a proficient)
    | bonus n => exact ih (h.setProficiencyBonus n)

lemma sameMarks_edits (s : Sheet) (steps : List Adjustment) :
    (applyAll s steps).SameMarks (s.editAll (edits steps)) :=
  sameMarks_applyAll ⟨rfl, fun _ => rfl⟩ steps

lemma applyAll_eq_of_perm {steps others : List Adjustment}
    (hraces : (races steps).Perm (races others)) (hedits : edits steps = edits others) (s : Sheet) :
    applyAll s steps = applyAll s others := by
  have hsteps := sameMarks_edits s steps
  have hothers := sameMarks_edits s others
  rw [← hedits] at hothers
  apply Sheet.ext_get
  · exact hsteps.1.trans hothers.1.symm
  · intro a
    apply Sheet.get_eq_of_score_of_isProficient
    · have hsum : ((races steps).map (·.delta a)).sum = ((races others).map (·.delta a)).sum :=
        (hraces.map _).sum_eq
      rw [toNat_score_applyAll, toNat_score_applyAll, hsum]
    · exact (hsteps.2 a).trans (hothers.2 a).symm

/-- A subrace gives what its parent gives, raised by its own bonuses. -/
lemma applyTo_of_parent {kind parent : RaceKind} (h : kind.parent = some parent) (s : Sheet) :
    (Race.ofKind kind).applyTo s = ((Race.ofKind parent).applyTo s).raiseAll kind.ownBonuses := by
  apply Sheet.ext_get
  · rw [Sheet.proficiencyBonus_raiseAll]
    rfl
  · intro a
    apply Sheet.get_eq_of_score_of_isProficient
    · rw [Sheet.toNat_score_raiseAll, Race.toNat_score_applyTo, Race.toNat_score_applyTo,
        RaceKind.delta_of_parent h]
      omega
    · rw [Sheet.isProficient_raiseAll, Race.isProficient_applyTo, Race.isProficient_applyTo]

/-- Races commute with each other and with the edits of marks and bonus, in every interleaving: only
how often each race is applied matters, and the order of the edits. A race applied again and again
adds its delta each time, and a subrace is its parent followed by its own bonuses. -/
theorem races_commute_with_edits (s : Sheet) (steps : List Adjustment) :
    (∀ a, ((applyAll s steps).score a).toNat =
        min ((s.score a).toNat + ((races steps).map (·.delta a)).sum) 255 ∧
      (applyAll s steps).isProficient a = (s.editAll (edits steps)).isProficient a) ∧
    (applyAll s steps).proficiencyBonus = (s.editAll (edits steps)).proficiencyBonus ∧
    (∀ others, (races steps).Perm (races others) → edits steps = edits others →
      applyAll s steps = applyAll s others) ∧
    (∀ n kind a, ((applyAll s (List.replicate n (race kind))).score a).toNat =
      min ((s.score a).toNat + n * kind.delta a) 255) ∧
    (∀ kind parent, kind.parent = some parent → (Race.ofKind kind).applyTo s =
      ((Race.ofKind parent).applyTo s).raiseAll kind.ownBonuses) := by
  refine ⟨fun a => ⟨toNat_score_applyAll s steps a, (sameMarks_edits s steps).2 a⟩,
    (sameMarks_edits s steps).1, fun others hraces hedits => applyAll_eq_of_perm hraces hedits s,
    fun n kind a => ?_, fun kind parent h => applyTo_of_parent h s⟩
  rw [toNat_score_applyAll, races_replicate, List.map_replicate, List.sum_replicate_nat]

example : Ability.all.map (applyAll (.uniform 254)
    [race .dwarf, mark .wisdom true, race .hillDwarf]).get =
      [⟨254, false⟩, ⟨254, false⟩, ⟨255, false⟩, ⟨254, false⟩, ⟨255, true⟩, ⟨254, false⟩] := by
  decide

end Adjustment
end CharacterSheet
