import Mathlib.Data.FinEnum
import Mathlib.Data.Set.Card

/-! The number of words of 32 and 64 bits, and of those whose value lies in a set. -/
namespace CharacterSheet.Word

lemma natCard_uint32 : Nat.card UInt32 = 2 ^ 32 := by
  rw [Nat.card_eq_fintype_card, ← FinEnum.card_eq_fintypeCard, FinEnum.card_UInt32]

lemma natCard_uint64 : Nat.card UInt64 = 2 ^ 64 := by
  rw [Nat.card_eq_fintype_card, ← FinEnum.card_eq_fintypeCard, FinEnum.card_UInt64]

/-- As many words have their value in a set as the set has numbers below 2^32. -/
lemma ncard_toNat_mem {S : Finset ℕ} (hS : ∀ k ∈ S, k < 2 ^ 32) :
    {w : UInt32 | w.toNat ∈ S}.ncard = S.card := by
  have himage : UInt32.toNat '' {w : UInt32 | w.toNat ∈ S} = S := by
    ext k
    constructor
    · rintro ⟨w, hw, rfl⟩
      exact hw
    · intro hk
      have hval : (UInt32.ofNat k).toNat = k := UInt32.toNat_ofNat_of_lt' (hS k hk)
      exact ⟨UInt32.ofNat k, by rwa [Set.mem_ofPred_eq, hval], hval⟩
  have hinj : Set.InjOn UInt32.toNat {w : UInt32 | w.toNat ∈ S} :=
    fun _ _ _ _ h => UInt32.toNat_inj.mp h
  rw [← hinj.ncard_image, himage, Set.ncard_coe_finset]

end CharacterSheet.Word
