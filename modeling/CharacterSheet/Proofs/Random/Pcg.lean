import CharacterSheet.Proofs.Random.Congruence
import CharacterSheet.Proofs.Random.Mixing
import Mathlib.Data.Set.Card

/-!
The permuted congruential generator has a single cycle through all 2^64 states, and in one turn of
it every word comes up equally often.
-/
namespace CharacterSheet.Pcg

open Function Redraw

lemma ext_iff {g h : Pcg} : g = h ↔ g.state = h.state := by
  cases g
  cases h
  simp

lemma increment_odd : increment % 2 = 1 := by decide +kernel

/-- Drawing words moves the state by the congruence. -/
lemma stateAfter_next (k : ℕ) (g : Pcg) :
    stateAfter next k g = ⟨(step increment)^[k] g.state⟩ := by
  induction k generalizing g with
  | zero => rfl
  | succ k ih => rw [stateAfter_succ, ih, iterate_succ_apply, next]

lemma wordAfter_next (k : ℕ) (g : Pcg) :
    wordAfter next k g = output (stateAfter next (k + 1) g).state := by
  rw [stateAfter_add]
  rfl

/-- The generator is back where it was after whole turns of the cycle and at no other time. -/
lemma stateAfter_next_eq_self_iff {k : ℕ} {g : Pcg} : stateAfter next k g = g ↔ 2 ^ 64 ∣ k := by
  obtain ⟨x⟩ := g
  rw [stateAfter_next, Pcg.mk.injEq, ← minimalPeriod_step increment_odd x,
    ← isPeriodicPt_iff_minimalPeriod_dvd]
  rfl

lemma existsUnique_stateAfter_next (g h : Pcg) : ∃! k, k < 2 ^ 64 ∧ stateAfter next k g = h := by
  obtain ⟨y⟩ := h
  simp only [stateAfter_next, Pcg.mk.injEq]
  exact existsUnique_iterate_step increment_odd g.state y

/-- One turn of the cycle, from any place on, makes every word 2^32 times. -/
lemma ncard_wordAfter_next (g : Pcg) (start : ℕ) (w : UInt32) :
    {k | k < 2 ^ 64 ∧ wordAfter next (start + k) g = w}.ncard = 2 ^ 32 := by
  let visit (k : ℕ) : UInt64 := (stateAfter next k (stateAfter next (start + 1) g)).state
  have hword : ∀ k, wordAfter next (start + k) g = output (visit k) := by
    intro k
    rw [wordAfter_next, Nat.add_right_comm, stateAfter_add]
  have hvisit : ∀ x, ∃! k, k < 2 ^ 64 ∧ visit k = x := by
    intro x
    have h := existsUnique_stateAfter_next (stateAfter next (start + 1) g) ⟨x⟩
    simpa only [Pcg.ext_iff] using h
  have himage : visit '' {k | k < 2 ^ 64 ∧ wordAfter next (start + k) g = w} =
      {x | output x = w} := by
    ext x
    constructor
    · rintro ⟨k, ⟨-, hk⟩, rfl⟩
      exact (hword k).symm.trans hk
    · intro hx
      obtain ⟨k, ⟨hlt, rfl⟩, -⟩ := hvisit x
      exact ⟨k, ⟨hlt, (hword k).trans hx⟩, rfl⟩
  have hinj : Set.InjOn visit {k | k < 2 ^ 64 ∧ wordAfter next (start + k) g = w} :=
    fun i hi j hj hij => (hvisit (visit j)).unique ⟨hi.1, hij⟩ ⟨hj.1, rfl⟩
  rw [← hinj.ncard_image, himage, ncard_output]

/-- The generator has full period and is exactly equidistributed. It comes back after 2^64 words and
never earlier, and meets every state once in between, so the stream of any seed is a shift of the
stream of any other. Every word comes up equally often among 2^64 in a row. -/
theorem next_equidistributed (g : Pcg) :
    (stateAfter next (2 ^ 64) g = g ∧ ∀ k, 0 < k → k < 2 ^ 64 → stateAfter next k g ≠ g) ∧
    (∀ h : Pcg, ∃! k, k < 2 ^ 64 ∧ stateAfter next k g = h) ∧
    (∀ h : Pcg, ∃ k < 2 ^ 64, ∀ n, wordAfter next n h = wordAfter next (k + n) g) ∧
    ∀ (start : ℕ) (w : UInt32),
      {k | k < 2 ^ 64 ∧ wordAfter next (start + k) g = w}.ncard = 2 ^ 32 := by
  refine ⟨⟨stateAfter_next_eq_self_iff.mpr dvd_rfl, ?_⟩, existsUnique_stateAfter_next g, ?_,
    ncard_wordAfter_next g⟩
  · intro k hpos hlt h
    exact absurd (Nat.le_of_dvd hpos (stateAfter_next_eq_self_iff.mp h)) (by omega)
  · intro h
    obtain ⟨k, ⟨hk, rfl⟩, -⟩ := existsUnique_stateAfter_next g h
    exact ⟨k, hk, fun n => (wordAfter_add next k n g).symm⟩

end CharacterSheet.Pcg
