import CharacterSheet.Proofs.Random.Words
import CharacterSheet.Random.Pcg
import Mathlib.Data.UInt
import Mathlib.Dynamics.PeriodicPts.Lemmas
import Mathlib.Tactic.LinearCombination
import Mathlib.Tactic.Ring

/-!
The period of the linear congruence modulo 2^64. Running it 2^k times multiplies by one more than a
multiple of 2^(k+2) and adds an odd multiple of 2^k, for every odd summand. So it takes all 2^64
steps to come back, and every state is met on the way.
-/
namespace CharacterSheet.Pcg

open Function
open scoped UInt64.CommRing

/-- An affine map whose factor is near to one, and whose summand is divisible by 2^k and by no
higher power of two. -/
def Leaps (k : ℕ) (f : UInt64 → UInt64) : Prop :=
  ∃ m c : UInt64, ∀ x, f x = (1 + 2 ^ (k + 2) * m) * x + 2 ^ k * (2 * c + 1)

/-- Two leaps in a row are a leap to the next power of two. -/
lemma Leaps.comp_self {k : ℕ} {f : UInt64 → UInt64} (h : Leaps k f) : Leaps (k + 1) (f ∘ f) := by
  obtain ⟨m, c, hf⟩ := h
  refine ⟨m + 2 ^ (k + 1) * m ^ 2, c + 2 ^ k * m * (2 * c + 1), fun x => ?_⟩
  rw [comp_apply, hf, hf]
  ring

lemma Leaps.iterate {f : UInt64 → UInt64} (h : Leaps 0 f) (k : ℕ) : Leaps k f^[2 ^ k] := by
  induction k with
  | zero => exact h
  | succ k ih =>
    rw [pow_succ, mul_two, iterate_add]
    exact ih.comp_self

private lemma two_pow_size : (2 : UInt64) ^ 64 = 0 := by decide +kernel

/-- A leap by 2^64 goes nowhere. -/
lemma Leaps.eq_self {f : UInt64 → UInt64} (h : Leaps 64 f) (x : UInt64) : f x = x := by
  obtain ⟨m, c, hf⟩ := h
  rw [hf]
  linear_combination (4 * m * x + (2 * c + 1)) * two_pow_size

/-- A leap by 2^63 flips the highest bit. -/
lemma Leaps.ne_self {f : UInt64 → UInt64} (h : Leaps 63 f) (x : UInt64) : f x ≠ x := by
  obtain ⟨m, c, hf⟩ := h
  have hx : f x = x + 2 ^ 63 := by
    rw [hf]
    linear_combination (2 * m * x + c) * two_pow_size
  intro h
  rw [hx, add_eq_left] at h
  exact absurd h (by decide +kernel)

/-- An odd summand makes the congruence a leap by one. -/
lemma leaps_step {increment : UInt64} (h : increment % 2 = 1) : Leaps 0 (step increment) := by
  have hm : multiplier = 1 + 4 * (multiplier / 4) := by decide +kernel
  have hc : increment = 2 * (increment / 2) + 1 := by
    have hlt := increment.toNat_lt
    have hmod := congrArg UInt64.toNat h
    rw [UInt64.toNat_mod] at hmod
    apply UInt64.toNat_inj.mp
    rw [UInt64.toNat_add, UInt64.toNat_mul, UInt64.toNat_div]
    change increment.toNat % 2 = 1 at hmod
    change increment.toNat = (2 * (increment.toNat / 2) % 2 ^ 64 + 1) % 2 ^ 64
    omega
  refine ⟨multiplier / 4, increment / 2, fun x => ?_⟩
  rw [step]
  linear_combination x * hm + hc

lemma minimalPeriod_step {increment : UInt64} (h : increment % 2 = 1) (x : UInt64) :
    minimalPeriod (step increment) x = 2 ^ 64 := by
  have hleap := leaps_step h
  have : Fact (Nat.Prime 2) := ⟨Nat.prime_two⟩
  exact minimalPeriod_eq_prime_pow ((hleap.iterate 63).ne_self x) ((hleap.iterate 64).eq_self x)

lemma existsUnique_iterate_step {increment : UInt64} (h : increment % 2 = 1) (x y : UInt64) :
    ∃! k, k < 2 ^ 64 ∧ (step increment)^[k] x = y := by
  have hperiod := minimalPeriod_step h x
  have hinj : Injective fun k : Fin (2 ^ 64) => (step increment)^[k] x := by
    intro i j hij
    have hi : (i : ℕ) ∈ Set.Iio (minimalPeriod (step increment) x) := by simp [hperiod]
    have hj : (j : ℕ) ∈ Set.Iio (minimalPeriod (step increment) x) := by simp [hperiod]
    exact Fin.ext (iterate_injOn_Iio_minimalPeriod hi hj hij)
  have hcard : Nat.card (Fin (2 ^ 64)) = Nat.card UInt64 := by
    rw [Nat.card_fin, Word.natCard_uint64]
  have hbij := (Nat.bijective_iff_injective_and_card _).mpr ⟨hinj, hcard⟩
  obtain ⟨k, hk, hunique⟩ := hbij.existsUnique y
  exact ⟨k, ⟨k.isLt, hk⟩, fun j hj => congrArg Fin.val (hunique ⟨j, hj.1⟩ hj.2)⟩

end CharacterSheet.Pcg
