import CharacterSheet.Proofs.Random.Uniform
import CharacterSheet.Random.ChaCha
import Mathlib.Algebra.Order.Floor.Div

/-!
Drawing an integer by multiplication is exact. The products of the words with the size of the range
are spaced by that size, and the low halves that are accepted make up a whole number of spacings, so
every integer of the range stands for the same number of words.
-/
namespace CharacterSheet.Widening

open CharacterSheet.Uniform (size size_cast two_le_size size_le)

/-! ### The arithmetic on words -/

section Words

/-- A word that is not zero, shifted by its leading zeros, has its highest bit set. -/
lemma shifted_mem {word : UInt32} (h : word ≠ 0) :
    2 ^ 31 ≤ word.toNat * 2 ^ leadingZeros word ∧
      word.toNat * 2 ^ leadingZeros word < 2 ^ 32 := by
  have hpos : word.toNat ≠ 0 := fun h0 => h (UInt32.toNat_inj.mp h0)
  have hlog : word.toNat.log2 < 32 := (Nat.log2_lt hpos).mpr word.toNat_lt
  have hlow := Nat.log2_self_le hpos
  have hhigh := Nat.lt_log2_self (n := word.toNat)
  rw [leadingZeros, if_neg h]
  constructor
  · calc 2 ^ 31 = 2 ^ word.toNat.log2 * 2 ^ (31 - word.toNat.log2) := by
          rw [← Nat.pow_add]
          congr 1
          omega
      _ ≤ _ := Nat.mul_le_mul_right _ hlow
  · calc word.toNat * 2 ^ (31 - word.toNat.log2)
        < 2 ^ (word.toNat.log2 + 1) * 2 ^ (31 - word.toNat.log2) :=
          Nat.mul_lt_mul_of_pos_right hhigh (Nat.two_pow_pos _)
      _ = 2 ^ 32 := by
          rw [← Nat.pow_add]
          congr 1
          omega

lemma toNat_zone {word : UInt32} (h : word ≠ 0) :
    (zone word).toNat = word.toNat * 2 ^ leadingZeros word - 1 := by
  obtain ⟨hlow, hhigh⟩ := shifted_mem h
  have hfew : leadingZeros word < 32 := by
    rw [leadingZeros, if_neg h]
    omega
  have hshift : (word <<< UInt32.ofNat (leadingZeros word)).toNat =
      word.toNat * 2 ^ leadingZeros word := by
    rw [UInt32.toNat_shiftLeft, UInt32.toNat_ofNat_of_lt' (by rw [UInt32.size]; omega),
      Nat.mod_eq_of_lt hfew, Nat.shiftLeft_eq, Nat.mod_eq_of_lt hhigh]
  have hone : (1 : UInt32) ≤ word <<< UInt32.ofNat (leadingZeros word) := by
    rw [UInt32.le_iff_toNat_le, hshift]
    exact le_trans (by decide) hlow
  rw [zone, UInt32.toNat_sub_of_le _ _ hone, hshift]
  rfl

/-- The product of two words fits 64 bits. -/
lemma toNat_product (w r : UInt32) :
    (w.toUInt64 * r.toUInt64).toNat = w.toNat * r.toNat := by
  have hw := w.toNat_lt
  have hr := r.toNat_lt
  have hlt : w.toNat * r.toNat < 2 ^ 32 * 2 ^ 32 := Nat.mul_lt_mul'' hw hr
  rw [UInt64.toNat_mul, UInt32.toNat_toUInt64, UInt32.toNat_toUInt64]
  exact Nat.mod_eq_of_lt (by omega)

lemma toNat_low (w r : UInt32) :
    (w.toUInt64 * r.toUInt64).toUInt32.toNat = w.toNat * r.toNat % 2 ^ 32 := by
  rw [UInt64.toNat_toUInt32, toNat_product]

lemma toNat_high (w r : UInt32) :
    ((w.toUInt64 * r.toUInt64) >>> 32).toUInt32.toNat = w.toNat * r.toNat / 2 ^ 32 := by
  have hlt : w.toNat * r.toNat / 2 ^ 32 < 2 ^ 32 := by
    rw [Nat.div_lt_iff_lt_mul (by decide)]
    exact Nat.mul_lt_mul'' w.toNat_lt r.toNat_lt
  rw [UInt64.toNat_toUInt32, UInt64.toNat_shiftRight, toNat_product, Nat.shiftRight_eq_div_pow]
  exact Nat.mod_eq_of_lt hlt

/-- The high half of a product is a place below the factor that multiplies the word. -/
lemma high_lt {n : ℕ} (hn : 0 < n) (w : UInt32) : w.toNat * n / 2 ^ 32 < n := by
  rw [Nat.div_lt_iff_lt_mul (by decide), Nat.mul_comm]
  exact Nat.mul_lt_mul_of_pos_left w.toNat_lt hn

end Words

section Bounds

variable {lo hi : Int32}

/-- The words of signed integers are their values modulo 2^32. -/
lemma toNat_toUInt32_cast (v : Int32) :
    (v.toUInt32.toNat : ℤ) = v.toInt % (2 ^ 32 : ℕ) := by
  have hlt := v.toUInt32.toNat_lt
  rw [← Int32.toInt_toBitVec, BitVec.toInt_eq_toNat_bmod, Int32.toNat_toBitVec, Int.bmod_emod,
    Int.emod_eq_of_lt (by omega) (by omega)]

lemma toNat_range (h : lo < hi) : (range lo hi).toNat = size lo hi % 2 ^ 32 := by
  have hcast : ((range lo hi).toNat : ℤ) = (size lo hi : ℤ) % (2 ^ 32 : ℕ) := by
    rw [range, toNat_toUInt32_cast, Int32.toInt_add, Int32.toInt_sub, size_cast h,
      Int.bmod_emod, ← Int.bmod_emod, Int.bmod_add_bmod, Int.bmod_emod]
    rfl
  exact_mod_cast hcast

lemma range_eq_zero_iff (h : lo < hi) : range lo hi = 0 ↔ size lo hi = 2 ^ 32 := by
  have hle := size_le lo hi
  have hpos := two_le_size h
  rw [← UInt32.toNat_inj, toNat_range h, UInt32.toNat_zero]
  omega

lemma size_eq_iff (h : lo < hi) :
    size lo hi = 2 ^ 32 ↔ lo = Int32.minValue ∧ hi = Int32.maxValue := by
  have hcast := size_cast h
  have hl := lo.le_toInt
  have hh := hi.toInt_lt
  rw [← Int32.toInt_inj, ← Int32.toInt_inj, Int32.toInt_minValue, Int32.toInt_maxValue]
  omega

lemma toNat_range_of_ne_zero (h : lo < hi) (hr : range lo hi ≠ 0) :
    (range lo hi).toNat = size lo hi := by
  have hle := size_le lo hi
  rw [ne_eq, range_eq_zero_iff h] at hr
  rw [toNat_range h, Nat.mod_eq_of_lt (by omega)]

lemma accept_of_range_eq_zero (hr : range lo hi = 0) (w : UInt32) :
    accept lo hi w = some w.toInt32 := by
  simp [accept, hr]

/-- The lower bound plus a high half stays below the upper bound, so the 32-bit sum is exact. -/
lemma toInt_add_high (h : lo < hi) (hr : range lo hi ≠ 0) (w : UInt32) :
    (lo + ((w.toUInt64 * (range lo hi).toUInt64) >>> 32).toUInt32.toInt32).toInt =
      lo.toInt + (w.toNat * size lo hi / 2 ^ 32 : ℕ) := by
  have hcast := size_cast h
  have hl := lo.le_toInt
  have hh := hi.toInt_lt
  have hlt := high_lt (Nat.zero_lt_of_lt (two_le_size h)) w
  have hhigh := toNat_high w (range lo hi)
  rw [toNat_range_of_ne_zero h hr] at hhigh
  generalize w.toNat * size lo hi / 2 ^ 32 = place at hlt hhigh ⊢
  rw [Int32.toInt_add, ← Int32.toInt_toBitVec, ← Int32.toInt_toBitVec,
    BitVec.toInt_eq_toNat_bmod (UInt32.toInt32 _).toBitVec, Int.add_bmod_bmod,
    UInt32.toBitVec_toInt32, UInt32.toNat_toBitVec, hhigh, Int32.toInt_toBitVec]
  exact Int.bmod_eq_of_le (by omega) (by omega)

/-- A word is accepted just when the low half of its product is below the size shifted by its
leading zeros, and the high half is the place of its answer. -/
lemma accept_eq_some_iff (h : lo < hi) (hr : range lo hi ≠ 0) {w : UInt32} {v : Int32} :
    accept lo hi w = some v ↔
      w.toNat * size lo hi % 2 ^ 32 < size lo hi * 2 ^ leadingZeros (range lo hi) ∧
        v.toInt = lo.toInt + (w.toNat * size lo hi / 2 ^ 32 : ℕ) := by
  have hpos := (shifted_mem hr).1
  have hzone : (w.toUInt64 * (range lo hi).toUInt64).toUInt32 ≤ zone (range lo hi) ↔
      w.toNat * size lo hi % 2 ^ 32 < size lo hi * 2 ^ leadingZeros (range lo hi) := by
    rw [UInt32.le_iff_toNat_le, toNat_low, toNat_zone hr]
    rw [toNat_range_of_ne_zero h hr] at hpos ⊢
    omega
  rw [← toInt_add_high h hr, ← hzone, Int32.toInt_inj]
  unfold accept
  rw [if_neg hr]
  dsimp only
  split_ifs with hw
  · exact ⟨fun hv => ⟨hw, (Option.some.inj hv).symm⟩, fun hv => congrArg some hv.2.symm⟩
  · exact ⟨(nomatch ·), fun hv => absurd hv.1 hw⟩

/-- An accepted word stands for an integer of the range. -/
lemma mem_of_accept (h : lo < hi) {w : UInt32} {v : Int32} (hv : accept lo hi w = some v) :
    lo ≤ v ∧ v ≤ hi := by
  have hcast := size_cast h
  rw [Int32.le_iff_toInt_le, Int32.le_iff_toInt_le]
  by_cases hr : range lo hi = 0
  · have hfull := (range_eq_zero_iff h).mp hr
    have hl := lo.le_toInt
    have hh := hi.toInt_lt
    have hvl := v.le_toInt
    have hvh := v.toInt_lt
    omega
  · obtain ⟨-, hval⟩ := (accept_eq_some_iff h hr).mp hv
    have hlt := high_lt (Nat.zero_lt_of_lt (two_le_size h)) w
    generalize w.toNat * size lo hi / 2 ^ 32 = place at hval hlt
    omega

end Bounds

/-! ### Counting words -/

lemma lt_ceilDiv_add_iff {n m count k : ℕ} (hn : 0 < n) :
    k < m ⌈/⌉ n + count ↔ k * n < m + n * count := by
  rw [← not_le, ← not_le, not_iff_not]
  by_cases hk : count ≤ k
  · obtain ⟨rest, rfl⟩ := Nat.exists_eq_add_of_le' hk
    rw [Nat.add_le_add_iff_right, ceilDiv_le_iff_le_mul hn, Nat.add_mul, Nat.mul_comm count,
      Nat.add_le_add_iff_right, Nat.mul_comm n]
  · have hkn : k * n < n * count := by
      rw [Nat.mul_comm]
      exact Nat.mul_lt_mul_of_pos_left (by omega) hn
    omega

/-- The multiples of a number that fall into the first spacings after a multiple of 2^32 belong to
consecutive factors, one for each spacing. -/
lemma mem_stretch_iff {n p count k : ℕ} (hn : 0 < n) (hcount : n * count ≤ 2 ^ 32) :
    (k * n % 2 ^ 32 < n * count ∧ k * n / 2 ^ 32 = p) ↔
      k ∈ Finset.Ico (p * 2 ^ 32 ⌈/⌉ n) (p * 2 ^ 32 ⌈/⌉ n + count) := by
  have hsplit := Nat.div_add_mod' (k * n) (2 ^ 32)
  have hmod := Nat.mod_lt (k * n) (show 2 ^ 32 > 0 by decide)
  have hlower : p * 2 ^ 32 ⌈/⌉ n ≤ k ↔ p * 2 ^ 32 ≤ k * n := by
    rw [ceilDiv_le_iff_le_mul hn, Nat.mul_comm n]
  rw [Finset.mem_Ico, hlower, lt_ceilDiv_add_iff hn]
  constructor
  · rintro ⟨hlow, rfl⟩
    omega
  · rintro ⟨hge, hlt⟩
    have hplace : k * n / 2 ^ 32 = p := by
      rw [Nat.div_eq_iff (by decide)]
      omega
    subst hplace
    omega

/-- The multiples of a number within a stretch of so many spacings are as many. -/
lemma ncard_stretch {n p count : ℕ} (hp : p < n) (hcount : n * count ≤ 2 ^ 32) :
    {w : UInt32 | w.toNat * n % 2 ^ 32 < n * count ∧ w.toNat * n / 2 ^ 32 = p}.ncard =
      count := by
  have hn : 0 < n := by omega
  have hset : {w : UInt32 | w.toNat * n % 2 ^ 32 < n * count ∧ w.toNat * n / 2 ^ 32 = p} =
      {w : UInt32 | w.toNat ∈ Finset.Ico (p * 2 ^ 32 ⌈/⌉ n) (p * 2 ^ 32 ⌈/⌉ n + count)} := by
    ext w
    rw [Set.mem_ofPred_eq, Set.mem_ofPred_eq, mem_stretch_iff hn hcount]
  rw [hset, Word.ncard_toNat_mem, Nat.card_Ico, Nat.add_sub_cancel_left]
  intro k hk
  obtain ⟨-, hplace⟩ := (mem_stretch_iff hn hcount).mpr hk
  have hk : k * n < n * 2 ^ 32 := by
    rw [← hplace, Nat.div_lt_iff_lt_mul (by decide)] at hp
    exact hp
  rw [Nat.mul_comm n] at hk
  exact Nat.lt_of_mul_lt_mul_right hk

/-- The number of words that stand for each integer of a range. -/
def share (lo hi : Int32) : ℕ :=
  if range lo hi = 0 then 1 else 2 ^ leadingZeros (range lo hi)

lemma share_pos (lo hi : Int32) : 0 < share lo hi := by
  unfold share
  split_ifs
  · exact Nat.one_pos
  · exact Nat.two_pow_pos _

lemma ncard_accept {lo hi v : Int32} (h : lo < hi) (hlo : lo ≤ v) (hhi : v ≤ hi) :
    {w : UInt32 | accept lo hi w = some v}.ncard = share lo hi := by
  have hcast := size_cast h
  have hlo' := Int32.le_iff_toInt_le.mp hlo
  have hhi' := Int32.le_iff_toInt_le.mp hhi
  unfold share
  split_ifs with hr
  · have hset : {w : UInt32 | accept lo hi w = some v} = {v.toUInt32} := by
      ext w
      rw [Set.mem_ofPred_eq, Set.mem_singleton_iff, accept_of_range_eq_zero hr,
        Option.some.injEq]
      constructor
      · rintro rfl
        exact (UInt32.toUInt32_toInt32 w).symm
      · rintro rfl
        exact Int32.toInt32_toUInt32 v
    rw [hset, Set.ncard_singleton]
  · have hcount := (shifted_mem hr).2.le
    rw [toNat_range_of_ne_zero h hr] at hcount
    rw [← ncard_stretch (p := (v.toInt - lo.toInt).toNat) (by omega) hcount]
    congr 1
    ext w
    simp only [Set.mem_ofPred_eq, accept_eq_some_iff h hr]
    refine and_congr_right fun _ => ?_
    generalize w.toNat * size lo hi / 2 ^ 32 = place
    omega

/-- The word 1 stands for the second integer by remainder, and by multiplication for the first one,
if it is accepted, or for itself in the full range. -/
lemma accept_one_ne {lo hi : Int32} (h : lo < hi) : Uniform.accept lo hi 1 ≠ accept lo hi 1 := by
  have htwo := two_le_size h
  have hle := size_le lo hi
  have hcut := Uniform.half_lt_cut (by omega) hle
  have hone : (1 : UInt32).toNat = 1 := rfl
  obtain ⟨v, hv, hval, -⟩ := Uniform.exists_accept h (w := 1) (by rw [hone]; omega)
  rw [hone, Nat.mod_eq_of_lt htwo] at hval
  rw [hv]
  intro heq
  by_cases hr : range lo hi = 0
  · have hfull := (range_eq_zero_iff h).mp hr
    have hcast := size_cast h
    have hl := lo.le_toInt
    have hh := hi.toInt_lt
    rw [accept_of_range_eq_zero hr, Option.some.injEq] at heq
    have hself : v.toInt = 1 := by
      rw [heq]
      rfl
    omega
  · obtain ⟨-, hplace⟩ := (accept_eq_some_iff h hr).mp heq.symm
    rw [range_eq_zero_iff h] at hr
    rw [hone, Nat.one_mul, Nat.div_eq_of_lt (by omega)] at hplace
    omega

/-! ### Drawing -/

/-- Drawing integers between two bounds from a stream of words evenly: the first accepted word is
the last one drawn and gives the answer, and every integer between the bounds, but no other one, is
the answer of the same number of words. -/
structure DrawsEvenly {σ : Type} (next : σ → UInt32 × σ) (accept : UInt32 → Option Int32)
    (lo hi : Int32) (share : ℕ) (draw : σ → Option (Int32 × σ)) : Prop where
  first : ∀ s v t, draw s = some (v, t) ↔
    ∃ k, (∀ j < k, accept (Redraw.wordAfter next j s) = none) ∧
      accept (Redraw.wordAfter next k s) = some v ∧ Redraw.stateAfter next (k + 1) s = t
  drawn_mem : ∀ s v t, draw s = some (v, t) → lo ≤ v ∧ v ≤ hi
  accepted_mem : ∀ w v, accept w = some v → lo ≤ v ∧ v ≤ hi
  even : ∀ v, lo ≤ v → v ≤ hi → {w | accept w = some v}.ncard = share
  share_pos : 0 < share

lemma DrawsEvenly.of_first {σ : Type} {next : σ → UInt32 × σ} {accept : UInt32 → Option Int32}
    {lo hi : Int32} {share : ℕ} {draw : σ → Option (Int32 × σ)}
    (hdraw : ∀ s, draw s = Redraw.first next accept s)
    (hmem : ∀ w v, accept w = some v → lo ≤ v ∧ v ≤ hi)
    (heven : ∀ v, lo ≤ v → v ≤ hi → {w | accept w = some v}.ncard = share)
    (hpos : 0 < share) : DrawsEvenly next accept lo hi share draw := by
  have hfirst : ∀ s v t, draw s = some (v, t) ↔
      ∃ k, (∀ j < k, accept (Redraw.wordAfter next j s) = none) ∧
        accept (Redraw.wordAfter next k s) = some v ∧
        Redraw.stateAfter next (k + 1) s = t := by
    intro s v t
    rw [hdraw, Redraw.first_eq_some_iff]
  refine ⟨hfirst, fun s v t h => ?_, hmem, heven, hpos⟩
  obtain ⟨k, -, hk, -⟩ := (hfirst s v t).mp h
  exact hmem _ v hk

section Drawing

variable {σ : Type} (next : σ → UInt32 × σ) {lo hi : Int32}

lemma int_of_lt (h : lo < hi) (s : σ) :
    int next lo hi s = Redraw.first next (accept lo hi) s := by
  simp [int, Int32.not_le.mpr h]

lemma drawsEvenly (h : lo < hi) :
    DrawsEvenly next (accept lo hi) lo hi (share lo hi) (int next lo hi) :=
  .of_first (int_of_lt next h) (fun _ _ => mem_of_accept h) (fun _ => ncard_accept h)
    (share_pos lo hi)

lemma drawsEvenly_by_remainder (h : lo < hi) :
    DrawsEvenly next (Uniform.accept lo hi) lo hi (2 ^ 32 / size lo hi)
      (Uniform.int next lo hi) := by
  have hpos := two_le_size h
  refine .of_first (Uniform.int_of_lt next h) (fun w v hv => ?_) (fun _ => Uniform.ncard_accept h)
    (Nat.div_pos (size_le lo hi) (by omega))
  obtain ⟨u, hu, -, hmem⟩ := Uniform.exists_accept h ((Uniform.accept_eq_some_iff h).mp hv).1
  rw [hv, Option.some.injEq] at hu
  rwa [hu]

end Drawing

/-- An integer drawn by multiplication is as exact as one drawn by remainder, for every stream of
words and every pair of bounds. The range vanishes for all integers together only; a word stands for
itself then, and else for the high half of its product. The two ways give words different
meanings. -/
theorem even_in_both_ways {σ : Type} (next : σ → UInt32 × σ) (lo hi : Int32) :
    (hi ≤ lo → ∀ s,
      int next lo hi s = some (lo, s) ∧ Uniform.int next lo hi s = some (lo, s)) ∧
    (lo < hi →
      DrawsEvenly next (accept lo hi) lo hi
        (if range lo hi = 0 then 1 else 2 ^ leadingZeros (range lo hi)) (int next lo hi) ∧
      DrawsEvenly next (Uniform.accept lo hi) lo hi (2 ^ 32 / size lo hi)
        (Uniform.int next lo hi) ∧
      ((range lo hi).toNat = size lo hi % 2 ^ 32 ∧
        (range lo hi = 0 ↔ lo = Int32.minValue ∧ hi = Int32.maxValue)) ∧
      (∀ w v, accept lo hi w = some v ↔
        if range lo hi = 0 then v = w.toInt32
        else w.toNat * size lo hi % 2 ^ 32 ≤
            size lo hi * 2 ^ leadingZeros (range lo hi) - 1 ∧
          v.toInt = lo.toInt + (w.toNat * size lo hi / 2 ^ 32 : ℕ)) ∧
      Uniform.accept lo hi 1 ≠ accept lo hi 1) ∧
    ∀ rng : ChaCha, RandomSource.randomInt lo hi rng = int ChaCha.next lo hi rng := by
  refine ⟨fun h s => ⟨int_of_le next h s, Uniform.int_of_le next h s⟩, fun h => ?_,
    fun rng => rfl⟩
  refine ⟨drawsEvenly next h, drawsEvenly_by_remainder next h,
    ⟨toNat_range h, (range_eq_zero_iff h).trans (size_eq_iff h)⟩, ?_, accept_one_ne h⟩
  intro w v
  split_ifs with hr
  · rw [accept_of_range_eq_zero hr, Option.some.injEq, eq_comm]
  · have hpos := (shifted_mem hr).1
    rw [toNat_range_of_ne_zero h hr] at hpos
    rw [accept_eq_some_iff h hr, Nat.lt_iff_le_pred (by omega)]

end CharacterSheet.Widening
