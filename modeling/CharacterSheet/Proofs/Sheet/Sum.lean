import CharacterSheet.Sheet.Addition
import Mathlib.Algebra.BigOperators.Group.List.Basic
import Mathlib.Algebra.GroupWithZero.Nat

/-!
Sums of many sheets. However the additions are grouped and written, a score is the sum of the scores
of the leaves, held at 255 once at the end; an ability is proficient if a leaf says so; and the
bonus is that of the leftmost leaf.
-/
namespace CharacterSheet

namespace Sheet

lemma toNat_score_le (s : Sheet) (a : Ability) : (s.score a).toNat ≤ 255 :=
  Nat.le_of_lt_succ (s.score a).toNat_lt

lemma toNat_score_add (s t : Sheet) (a : Ability) :
    ((s + t).score a).toNat = min ((s.score a).toNat + (t.score a).toNat) 255 := by
  rw [score, get_add, AbilityScore.score_add, AbilityScore.toNat_saturatingAdd]
  rfl

lemma isProficient_add (s t : Sheet) (a : Ability) :
    (s + t).isProficient a = (s.isProficient a || t.isProficient a) := by
  rw [isProficient, get_add, AbilityScore.proficient_add]
  rfl

/-- Entries with the same score and the same mark are the same entry. -/
lemma get_eq_of_score_of_isProficient {s t : Sheet} {a : Ability}
    (hscore : (s.score a).toNat = (t.score a).toNat)
    (hmark : s.isProficient a = t.isProficient a) : s.get a = t.get a := by
  have hsame : (s.get a).score = (t.get a).score := UInt8.toNat_inj.mp hscore
  have hflag : (s.get a).proficient = (t.get a).proficient := hmark
  cases hs : s.get a
  cases ht : t.get a
  simp_all

lemma add_uniform_zero (s : Sheet) : s + uniform 0 = s := by
  apply ext_get
  · rfl
  · intro a
    apply get_eq_of_score_of_isProficient
    · have hle := toNat_score_le s a
      have hzero : ((uniform 0).score a).toNat = 0 := by
        rw [score, get_uniform]
        rfl
      rw [toNat_score_add, hzero]
      omega
    · rw [isProficient_add, isProficient, isProficient, get_uniform, Bool.or_false]

/-- An expression that adds sheets, each addition written in its own way. -/
inductive Sum where
  | leaf (sheet : Sheet)
  | node (form : Addition) (left right : Sum)

namespace Sum

/-- The sheet that is left after all additions. -/
def value : Sum → Sheet
  | leaf s => s
  | node form l r => form.apply l.value r.value

def leaves : Sum → List Sheet
  | leaf s => [s]
  | node _ l r => l.leaves ++ r.leaves

/-- The scores of an ability in all leaves, added up without a bound. -/
def total (t : Sum) (a : Ability) : ℕ := (t.leaves.map fun s => (s.score a).toNat).sum

lemma value_node (form : Addition) (l r : Sum) : (node form l r).value = l.value + r.value :=
  Addition.apply_eq form l.value r.value

@[simp] lemma total_node (form : Addition) (l r : Sum) (a : Ability) :
    (node form l r).total a = l.total a + r.total a := by
  simp [total, leaves]

/-- Holding a sum at 255 at every addition is holding it at 255 once. -/
lemma toNat_score_value (t : Sum) (a : Ability) :
    (t.value.score a).toNat = min (t.total a) 255 := by
  induction t with
  | leaf s =>
    have hle := toNat_score_le s a
    have htotal : (leaf s).total a = (s.score a).toNat := by simp [total, leaves]
    rw [value, htotal]
    omega
  | node form l r ihl ihr =>
    rw [value_node, toNat_score_add, ihl, ihr, total_node]
    omega

lemma isProficient_value (t : Sum) (a : Ability) :
    t.value.isProficient a = t.leaves.any (·.isProficient a) := by
  induction t with
  | leaf s => simp [value, leaves]
  | node form l r ihl ihr => rw [value_node, isProficient_add, ihl, ihr, leaves, List.any_append]

lemma head?_leaves (t : Sum) :
    t.leaves.head?.map proficiencyBonus = some t.value.proficiencyBonus := by
  induction t with
  | leaf s => rfl
  | node form l r ihl _ =>
    obtain ⟨first, hfirst, hbonus⟩ := Option.map_eq_some_iff.mp ihl
    rw [value_node, leaves, List.head?_append, hfirst, proficiencyBonus_add, ← hbonus]
    rfl

/-- The order of the leaves matters to no entry. -/
lemma get_value_of_perm {t u : Sum} (h : t.leaves.Perm u.leaves) (a : Ability) :
    t.value.get a = u.value.get a := by
  apply get_eq_of_score_of_isProficient
  · have htotal : t.total a = u.total a := (h.map _).sum_eq
    rw [toNat_score_value, toNat_score_value, htotal]
  · rw [isProficient_value, isProficient_value, Bool.eq_iff_iff]
    simp [h.mem_iff]

lemma value_eq_of_leaves_eq {t u : Sum} (h : t.leaves = u.leaves) : t.value = u.value := by
  apply ext_get
  · apply Option.some.inj
    rw [← head?_leaves, ← head?_leaves, h]
  · intro a
    exact get_value_of_perm (.of_eq h) a

/-- A sum is determined by its leaves, whatever the grouping and whichever way each addition is
written. Another order of the leaves gives the same scores and marks, and the sheet of zeros changes
nothing on the right and only the bonus on the left. -/
theorem value_determined_by_leaves (t : Sum) :
    (∀ a, (t.value.score a).toNat = min (t.leaves.map fun s => (s.score a).toNat).sum 255 ∧
      t.value.isProficient a = t.leaves.any (·.isProficient a)) ∧
    some t.value.proficiencyBonus = t.leaves.head?.map proficiencyBonus ∧
    (∀ u : Sum, t.leaves = u.leaves → t.value = u.value) ∧
    (∀ u : Sum, t.leaves.Perm u.leaves → ∀ a, t.value.get a = u.value.get a) ∧
    (∀ form, (node form t (leaf (uniform 0))).value = t.value) ∧
    (∀ form a, (node form (leaf (uniform 0)) t).value.get a = t.value.get a) := by
  refine ⟨fun a => ⟨toNat_score_value t a, isProficient_value t a⟩, (head?_leaves t).symm,
    fun u h => value_eq_of_leaves_eq h, fun u h a => get_value_of_perm h a, fun form => ?_,
    fun form a => ?_⟩
  · rw [value_node, value, add_uniform_zero]
  · have hswap : (node form (leaf (uniform 0)) t).leaves.Perm
        (node form t (leaf (uniform 0))).leaves := List.perm_append_comm
    rw [get_value_of_perm hswap, value_node, value, add_uniform_zero]

example : (node (.inPlace false) (leaf (uniform 200))
    (node (.fresh true) (leaf (uniform 100)) (leaf (uniform 7)))).value.score .wisdom = 255 := by
  decide

end Sum
end Sheet
end CharacterSheet
