import CharacterSheet.Random.Pcg
import CharacterSheet.Proofs.Random.Words
import Mathlib.Data.Nat.Bitwise

/-!
The words made from the states of the congruence. A word together with the five bits that rotate it
and the 27 bits that it does not depend on determines the state, so each word is made from exactly
2^32 states.
-/
namespace CharacterSheet.Pcg

open Function

/-! ### Rotation -/

lemma toNat_thirtyTwo_sub {amount : UInt32} (h : amount.toNat < 32) :
    (32 - amount).toNat = 32 - amount.toNat := by
  rw [UInt32.toNat_sub_of_le]
  · rfl
  · exact UInt32.le_iff_toNat_le.mpr (by change amount.toNat ≤ 32; omega)

/-- Rotating moves every bit of a word down, and the lowest bits to the top. -/
lemma testBit_rotateRight (word : UInt32) {amount : UInt32} (h : amount.toNat < 32) {i : ℕ}
    (hi : i < 32) :
    (rotateRight word amount).toNat.testBit i = word.toNat.testBit ((i + amount.toNat) % 32) := by
  have hmod : amount.toNat % 32 = amount.toNat := Nat.mod_eq_of_lt h
  have htop : ∀ j, 32 ≤ j → word.toNat.testBit j = false := fun j hj =>
    Nat.testBit_lt_two_pow (word.toNat_lt.trans_le (Nat.pow_le_pow_right (by decide) hj))
  rw [rotateRight, UInt32.toNat_or, UInt32.toNat_shiftRight, UInt32.toNat_shiftLeft,
    toNat_thirtyTwo_sub h, hmod, Nat.testBit_or, Nat.testBit_shiftRight, Nat.testBit_mod_two_pow,
    Nat.testBit_shiftLeft, Nat.add_comm amount.toNat i]
  rcases Nat.eq_zero_or_pos amount.toNat with hzero | hpos
  · simp [hzero, Nat.mod_eq_of_lt hi, hi]
  rcases Nat.lt_or_ge (i + amount.toNat) 32 with hlt | hge
  · have hlow : ¬ i ≥ (32 - amount.toNat) % 32 := by omega
    simp [Nat.mod_eq_of_lt hlt, hlow]
  · have hhigh : i ≥ (32 - amount.toNat) % 32 := by omega
    have hplace : i - (32 - amount.toNat) % 32 = (i + amount.toNat) % 32 := by omega
    simp [htop _ hge, hi, hhigh, hplace]

lemma rotateRight_injective {v w amount : UInt32} (h : amount.toNat < 32)
    (heq : rotateRight v amount = rotateRight w amount) : v = w := by
  apply UInt32.toNat_inj.mp
  apply Nat.eq_of_testBit_eq
  intro j
  rcases Nat.lt_or_ge j 32 with hj | hj
  · have hi : (j + (32 - amount.toNat)) % 32 < 32 := Nat.mod_lt _ (by decide)
    have hplace : ((j + (32 - amount.toNat)) % 32 + amount.toNat) % 32 = j := by omega
    have hv := testBit_rotateRight v h hi
    have hw := testBit_rotateRight w h hi
    rw [hplace] at hv hw
    rw [← hv, ← hw, heq]
  · have hpow := Nat.pow_le_pow_right (show 0 < 2 by decide) hj
    rw [Nat.testBit_lt_two_pow (v.toNat_lt.trans_le hpow),
      Nat.testBit_lt_two_pow (w.toNat_lt.trans_le hpow)]

/-! ### Shifted mixture -/

/-- A number of at most 37 bits is recovered from its mixture with itself shifted by 18 bits. -/
lemma eq_of_xor_shiftRight_eq {u v : ℕ} (hu : u < 2 ^ 37) (hv : v < 2 ^ 37)
    (h : u >>> 18 ^^^ u = v >>> 18 ^^^ v) : u = v := by
  have hback : ∀ n < 2 ^ 37, (n >>> 18 ^^^ n) ^^^ (n >>> 18 ^^^ n) >>> 18 ^^^
      (n >>> 18 ^^^ n) >>> 36 = n := by
    intro n hn
    have hzero : n >>> 54 = 0 := Nat.shiftRight_eq_zero _ _ (by omega)
    simp only [Nat.shiftRight_xor_distrib, ← Nat.shiftRight_add, Nat.reduceAdd, hzero]
    rw [Nat.zero_xor, Nat.xor_comm (n >>> 18) n, Nat.xor_comm (n >>> 36) (n >>> 18),
      Nat.xor_assoc n, Nat.xor_xor_cancel_left, Nat.xor_assoc, Nat.xor_self, Nat.xor_zero]
  rw [← hback u hu, ← hback v hv, h]

/-- The mixture is that of the 37 highest bits of the state, cut to a word. -/
lemma toNat_mixture (x : UInt64) :
    ((((x >>> 18) ^^^ x) >>> 27).toUInt32).toNat =
      ((x.toNat >>> 27) >>> 18 ^^^ x.toNat >>> 27) % 2 ^ 32 := by
  rw [UInt64.toNat_toUInt32, UInt64.toNat_shiftRight, UInt64.toNat_xor, UInt64.toNat_shiftRight]
  change (x.toNat >>> 18 ^^^ x.toNat) >>> 27 % 2 ^ 32 = _
  rw [Nat.shiftRight_xor_distrib, ← Nat.shiftRight_add, ← Nat.shiftRight_add]

lemma toNat_rotation (x : UInt64) : (x >>> 59).toUInt32.toNat = x.toNat >>> 59 := by
  have hx := x.toNat_lt
  rw [UInt64.toNat_toUInt32, UInt64.toNat_shiftRight]
  change x.toNat >>> 59 % 2 ^ 32 = _
  rw [Nat.shiftRight_eq_div_pow]
  omega

/-- The mixture does not change the five highest bits. -/
lemma mixture_shiftRight {u : ℕ} (hu : u < 2 ^ 37) : (u >>> 18 ^^^ u) >>> 32 = u >>> 32 := by
  have hzero : u >>> 50 = 0 := Nat.shiftRight_eq_zero _ _ (by omega)
  rw [Nat.shiftRight_xor_distrib, ← Nat.shiftRight_add, hzero, Nat.zero_xor]

lemma eq_of_shiftRight_eq_of_mod_eq {m n k : ℕ} (hhigh : m >>> k = n >>> k)
    (hlow : m % 2 ^ k = n % 2 ^ k) : m = n := by
  rw [Nat.shiftRight_eq_div_pow, Nat.shiftRight_eq_div_pow] at hhigh
  rw [← Nat.div_add_mod m (2 ^ k), ← Nat.div_add_mod n (2 ^ k), hhigh, hlow]

/-- Two states are the same if they make the same word, rotate it alike, and agree in their 27
lowest bits. -/
lemma eq_of_output_eq {x y : UInt64} (hword : output x = output y)
    (htop : x.toNat >>> 59 = y.toNat >>> 59) (hlow : x.toNat % 2 ^ 27 = y.toNat % 2 ^ 27) :
    x = y := by
  have hbound : ∀ z : UInt64, z.toNat >>> 27 < 2 ^ 37 ∧ z.toNat >>> 59 < 32 := by
    intro z
    have hz := z.toNat_lt
    rw [Nat.shiftRight_eq_div_pow, Nat.shiftRight_eq_div_pow]
    omega
  have hamount : (x >>> 59).toUInt32 = (y >>> 59).toUInt32 := by
    rw [← UInt32.toNat_inj, toNat_rotation, toNat_rotation, htop]
  have hrotation : (y >>> 59).toUInt32.toNat < 32 := by
    rw [toNat_rotation]
    exact (hbound y).2
  have hmixture : (((x >>> 18) ^^^ x) >>> 27).toUInt32 = (((y >>> 18) ^^^ y) >>> 27).toUInt32 := by
    rw [output, output, hamount] at hword
    exact rotateRight_injective hrotation hword
  have hcut := congrArg UInt32.toNat hmixture
  rw [toNat_mixture, toNat_mixture] at hcut
  have hhigh : (x.toNat >>> 27) >>> 32 = (y.toNat >>> 27) >>> 32 := by
    rw [← Nat.shiftRight_add, ← Nat.shiftRight_add]
    exact htop
  have hmiddle := eq_of_shiftRight_eq_of_mod_eq
    (by rw [mixture_shiftRight (hbound x).1, mixture_shiftRight (hbound y).1, hhigh]) hcut
  have hupper := eq_of_xor_shiftRight_eq (hbound x).1 (hbound y).1 hmiddle
  exact UInt64.toNat_inj.mp (eq_of_shiftRight_eq_of_mod_eq hupper hlow)

/-! ### Counting states -/

/-- A state taken apart into the word it makes, its five highest and its 27 lowest bits. -/
def parts (x : UInt64) : UInt32 × Fin (2 ^ 5) × Fin (2 ^ 27) :=
  (output x, Fin.ofNat _ (x.toNat >>> 59), Fin.ofNat _ x.toNat)

/-- The parts can be chosen freely, and determine the state. -/
lemma parts_bijective : Bijective parts := by
  rw [Nat.bijective_iff_injective_and_card]
  constructor
  · intro x y h
    simp only [parts, Prod.mk.injEq, Fin.ext_iff, Fin.val_ofNat] at h
    obtain ⟨hword, htop, hlow⟩ := h
    have hx := x.toNat_lt
    have hy := y.toNat_lt
    rw [Nat.shiftRight_eq_div_pow, Nat.shiftRight_eq_div_pow] at htop
    refine eq_of_output_eq hword ?_ hlow
    rw [Nat.shiftRight_eq_div_pow, Nat.shiftRight_eq_div_pow]
    omega
  · rw [Nat.card_prod, Nat.card_prod, Word.natCard_uint32, Word.natCard_uint64, Nat.card_fin,
      Nat.card_fin, ← pow_add, ← pow_add]

lemma ncard_output (w : UInt32) : {x | output x = w}.ncard = 2 ^ 32 := by
  have hpreimage : {x | output x = w} = Set.preimage parts ({w} ×ˢ Set.univ) := by
    ext x
    simp [parts]
  rw [hpreimage, Set.ncard_preimage_of_injective_subset_range parts_bijective.injective
      (by simp [parts_bijective.surjective.range_eq]), Set.ncard_prod, Set.ncard_singleton,
    Set.ncard_univ, Nat.card_prod, Nat.card_fin, Nat.card_fin, one_mul, ← pow_add]

end CharacterSheet.Pcg
