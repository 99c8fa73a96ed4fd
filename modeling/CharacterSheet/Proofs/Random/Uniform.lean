import CharacterSheet.Proofs.Random.Words
import CharacterSheet.Random.Uniform
import Mathlib.Data.Int.CardIntervalMod

/-!
Drawing an integer by remainder is exact. The 64-bit arithmetic never wraps, the draw ends with the
first word below the cut, and every integer of the range stands for the same number of words.
-/
namespace CharacterSheet.Uniform

/-- The number of integers between two bounds. -/
def size (lo hi : Int32) : ℕ := (hi.toInt - lo.toInt + 1).toNat

/-- The largest multiple of a size that is at most 2^32. -/
def cut (n : ℕ) : ℕ := 2 ^ 32 / n * n

lemma cut_le (n : ℕ) : cut n ≤ 2 ^ 32 := Nat.div_mul_le_self _ _

lemma cut_eq_of_dvd {n : ℕ} (h : n ∣ 2 ^ 32) : cut n = 2 ^ 32 := Nat.div_mul_cancel h

/-- The tail beyond the cut is shorter than a size, and than the part below the cut. -/
lemma half_lt_cut {n : ℕ} (hpos : 0 < n) (hle : n ≤ 2 ^ 32) : 2 ^ 31 < cut n := by
  have hdiv : 2 ^ 32 = cut n + 2 ^ 32 % n := by rw [cut, Nat.div_add_mod']
  have hmod : 2 ^ 32 % n < n := Nat.mod_lt _ hpos
  have hcut : n ≤ cut n := Nat.le_mul_of_pos_left n (Nat.div_pos hle hpos)
  omega

section Bounds

variable {lo hi : Int32}

lemma size_cast (h : lo < hi) : (size lo hi : ℤ) = hi.toInt - lo.toInt + 1 := by
  have := Int32.lt_iff_toInt_lt.mp h
  unfold size
  omega

lemma two_le_size (h : lo < hi) : 2 ≤ size lo hi := by
  have := Int32.lt_iff_toInt_lt.mp h
  unfold size
  omega

lemma size_le (lo hi : Int32) : size lo hi ≤ 2 ^ 32 := by
  have := lo.le_toInt
  have := hi.toInt_lt
  unfold size
  omega

lemma toInt_sub (lo hi : Int32) : (hi.toInt64 - lo.toInt64).toInt = hi.toInt - lo.toInt := by
  have hl := lo.le_toInt
  have hl' := lo.toInt_lt
  have hh := hi.le_toInt
  have hh' := hi.toInt_lt
  rw [Int64.toInt_sub, Int32.toInt_toInt64, Int32.toInt_toInt64]
  exact Int.bmod_eq_of_le (by omega) (by omega)

lemma toInt_width (lo hi : Int32) : (width lo hi).toInt = hi.toInt - lo.toInt + 1 := by
  have hl := lo.le_toInt
  have hl' := lo.toInt_lt
  have hh := hi.le_toInt
  have hh' := hi.toInt_lt
  rw [width, Int64.toInt_add, toInt_sub]
  exact Int.bmod_eq_of_le (by simp; omega) (by simp; omega)

lemma toNat_span (h : lo < hi) : (span lo hi).toNat = size lo hi := by
  have hpos := Int32.lt_iff_toInt_lt.mp h
  have hle : 0 ≤ width lo hi := by
    rw [Int64.le_iff_toInt_le, toInt_width]
    simp
    omega
  rw [span, Int64.toNat_toUInt64_of_le hle, Int64.toNatClampNeg, toInt_width, size]

lemma toNat_zone {n : UInt64} : (zone n).toNat = cut n.toNat := by
  have h := cut_le n.toNat
  rw [cut] at h
  have hone : ((1 : UInt64) <<< 32).toNat = 2 ^ 32 := rfl
  rw [zone, UInt64.toNat_mul, UInt64.toNat_div, hone, cut]
  exact Nat.mod_eq_of_lt (by omega)

lemma toNat_offset (n : UInt64) (w : UInt32) : (offset n w).toNat = w.toNat % n.toNat := by
  simp [offset]

/-- A place below 2^32 is added to the lower bound without overflow. -/
lemma toInt_shift {o : UInt64} (h : o.toNat < 2 ^ 32) :
    (shift lo o).toInt = lo.toInt + o.toNat := by
  have hl := lo.le_toInt
  have hl' := lo.toInt_lt
  have ho : o.toInt64.toInt = o.toNat :=
    BitVec.toInt_eq_toNat_of_lt (x := o.toBitVec) (by rw [UInt64.toNat_toBitVec]; omega)
  rw [shift, Int64.toInt_add, Int32.toInt_toInt64, ho]
  exact Int.bmod_eq_of_le (by omega) (by omega)

lemma toNat_offset_lt (h : lo < hi) (w : UInt32) : (offset (span lo hi) w).toNat < size lo hi := by
  have := two_le_size h
  rw [toNat_offset, toNat_span h]
  exact Nat.mod_lt _ (by omega)

lemma toInt_shift_offset (h : lo < hi) (w : UInt32) :
    (shift lo (offset (span lo hi) w)).toInt = lo.toInt + (w.toNat % size lo hi : ℕ) := by
  have hlt := toNat_offset_lt h w
  have hle := size_le lo hi
  rw [toInt_shift (by omega), toNat_offset, toNat_span h]

/-- The integer that a word below the cut stands for. -/
def answer (lo hi : Int32) (w : UInt32) : Int32 := (shift lo (offset (span lo hi) w)).toInt32

/-- The answer fits 32 bits, since it is at most the upper bound. -/
lemma toInt_answer (h : lo < hi) (w : UInt32) :
    (answer lo hi w).toInt = lo.toInt + (w.toNat % size lo hi : ℕ) := by
  have hlt := toNat_offset_lt h w
  have hcast := size_cast h
  have hl := lo.le_toInt
  have hh := hi.toInt_lt
  rw [toNat_offset, toNat_span h] at hlt
  rw [answer, Int64.toInt_toInt32, toInt_shift_offset h]
  exact Int.bmod_eq_of_le (by omega) (by omega)

lemma lt_zone_iff (h : lo < hi) (w : UInt32) :
    w.toUInt64 < zone (span lo hi) ↔ w.toNat < cut (size lo hi) := by
  rw [UInt64.lt_iff_toNat_lt, toNat_zone, toNat_span h, UInt32.toNat_toUInt64]

lemma accept_eq_some_iff (h : lo < hi) {w : UInt32} {v : Int32} :
    accept lo hi w = some v ↔
      w.toNat < cut (size lo hi) ∧ v.toInt = lo.toInt + (w.toNat % size lo hi : ℕ) := by
  rw [accept, ← lt_zone_iff h, ← toInt_answer h, Int32.toInt_inj, answer]
  split_ifs with hw
  · simp [hw, eq_comm]
  · simp [hw]

lemma accept_eq_none_iff (h : lo < hi) {w : UInt32} :
    accept lo hi w = none ↔ cut (size lo hi) ≤ w.toNat := by
  unfold accept
  rw [← not_lt, ← lt_zone_iff h]
  split_ifs with hw <;> simp [hw]

lemma accept_of_lt_cut (h : lo < hi) {w : UInt32} (hw : w.toNat < cut (size lo hi)) :
    accept lo hi w = some (answer lo hi w) :=
  (accept_eq_some_iff h).mpr ⟨hw, toInt_answer h w⟩

/-- A word below the cut stands for exactly one integer, and that lies in the range. -/
lemma exists_accept (h : lo < hi) {w : UInt32} (hw : w.toNat < cut (size lo hi)) :
    ∃ v, accept lo hi w = some v ∧ v.toInt = lo.toInt + (w.toNat % size lo hi : ℕ) ∧
      lo ≤ v ∧ v ≤ hi := by
  have hv := toInt_answer h w
  have hlt := toNat_offset_lt h w
  have hcast := size_cast h
  rw [toNat_offset, toNat_span h] at hlt
  refine ⟨_, accept_of_lt_cut h hw, hv, ?_, ?_⟩
  · rw [Int32.le_iff_toInt_le, hv]
    omega
  · rw [Int32.le_iff_toInt_le, hv]
    omega

end Bounds

/-! ### Counting words -/

/-- Below the cut every remainder is left by the same number of words. -/
lemma ncard_remainder {n r : ℕ} (hr : r < n) :
    {w : UInt32 | w.toNat < cut n ∧ w.toNat % n = r}.ncard = 2 ^ 32 / n := by
  have hcut := cut_le n
  have hset : {w : UInt32 | w.toNat < cut n ∧ w.toNat % n = r} =
      {w : UInt32 | w.toNat ∈ {k ∈ Finset.range (cut n) | k ≡ r [MOD n]}} := by
    ext w
    simp [Nat.ModEq, Nat.mod_eq_of_lt hr]
  rw [hset, Word.ncard_toNat_mem, ← Nat.count_eq_card_filter_range,
    Nat.count_modEq_card _ (by omega)]
  · simp [cut, Nat.mul_div_cancel _ (show 0 < n by omega)]
  · intro k hk
    have := Finset.mem_range.mp (Finset.mem_filter.mp hk).1
    omega

lemma ncard_tail (n : ℕ) : {w : UInt32 | cut n ≤ w.toNat}.ncard = 2 ^ 32 - cut n := by
  have hset : {w : UInt32 | cut n ≤ w.toNat} =
      {w : UInt32 | w.toNat ∈ Finset.Ico (cut n) (2 ^ 32)} := by
    ext w
    simpa using fun _ => w.toNat_lt
  rw [hset, Word.ncard_toNat_mem, Nat.card_Ico]
  exact fun k hk => (Finset.mem_Ico.mp hk).2

lemma ncard_accept {lo hi v : Int32} (h : lo < hi) (hlo : lo ≤ v) (hhi : v ≤ hi) :
    {w : UInt32 | accept lo hi w = some v}.ncard = 2 ^ 32 / size lo hi := by
  have hcast := size_cast h
  have hlo' := Int32.le_iff_toInt_le.mp hlo
  have hhi' := Int32.le_iff_toInt_le.mp hhi
  rw [← ncard_remainder (r := (v.toInt - lo.toInt).toNat) (by omega)]
  congr 1
  ext w
  simp only [Set.mem_ofPred_eq, accept_eq_some_iff h]
  refine and_congr_right fun _ => ?_
  omega

/-! ### Drawing -/

section Drawing

variable {σ : Type} (next : σ → UInt32 × σ) {lo hi : Int32} {s : σ}

lemma isSome_int_iff (h : lo < hi) :
    (int next lo hi s).isSome ↔ ∃ k, (Redraw.wordAfter next k s).toNat < cut (size lo hi) := by
  rw [int_of_lt next h, Redraw.isSome_first_iff]
  refine exists_congr fun k => ?_
  rw [Option.isSome_iff_ne_none, ne_eq, accept_eq_none_iff h, not_le]

lemma int_eq_some_of_first (h : lo < hi) {k : ℕ} {v : Int32}
    (hbefore : ∀ j < k, cut (size lo hi) ≤ (Redraw.wordAfter next j s).toNat)
    (hk : accept lo hi (Redraw.wordAfter next k s) = some v) :
    int next lo hi s = some (v, Redraw.stateAfter next (k + 1) s) := by
  rw [int_of_lt next h, Redraw.first_eq_some_iff]
  exact ⟨k, fun j hj => (accept_eq_none_iff h).mpr (hbefore j hj), hk, rfl⟩

end Drawing

/-- A draw is exact for every stream of words and every pair of bounds. The arithmetic on 64-bit
words computes the numbers meant. A draw ends just when some word is below the cut; the first such
word is the last one drawn and gives the answer. Fewer than half of the words are rejected, and the
others are shared out evenly. -/
theorem int_exact {σ : Type} (next : σ → UInt32 × σ) (lo hi : Int32) (s : σ) :
    (hi ≤ lo → int next lo hi s = some (lo, s)) ∧
    (lo < hi →
      ((size lo hi : ℤ) = hi.toInt - lo.toInt + 1 ∧ 2 ≤ size lo hi ∧ size lo hi ≤ 2 ^ 32 ∧
        (hi.toInt64 - lo.toInt64).toInt = hi.toInt - lo.toInt ∧
        (width lo hi).toInt = size lo hi ∧ (span lo hi).toNat = size lo hi ∧
        (zone (span lo hi)).toNat = 2 ^ 32 / size lo hi * size lo hi ∧
        ∀ w, (shift lo (offset (span lo hi) w)).toInt = lo.toInt + (w.toNat % size lo hi : ℕ) ∧
          (shift lo (offset (span lo hi) w)).toInt32.toInt =
            lo.toInt + (w.toNat % size lo hi : ℕ)) ∧
      ((int next lo hi s).isSome ↔
        ∃ k, (Redraw.wordAfter next k s).toNat < cut (size lo hi)) ∧
      (∀ k, (∀ j < k, cut (size lo hi) ≤ (Redraw.wordAfter next j s).toNat) →
        (Redraw.wordAfter next k s).toNat < cut (size lo hi) →
        ∃ v, int next lo hi s = some (v, Redraw.stateAfter next (k + 1) s) ∧
          v.toInt = lo.toInt + ((Redraw.wordAfter next k s).toNat % size lo hi : ℕ) ∧
          lo ≤ v ∧ v ≤ hi) ∧
      (2 ^ 31 < cut (size lo hi) ∧
        {w | accept lo hi w = none}.ncard = 2 ^ 32 - cut (size lo hi) ∧
        (size lo hi ∣ 2 ^ 32 → ∀ w, accept lo hi w ≠ none)) ∧
      ∀ v, lo ≤ v → v ≤ hi →
        {w | w.toNat < cut (size lo hi) ∧ accept lo hi w = some v}.ncard =
          2 ^ 32 / size lo hi) := by
  refine ⟨fun h => int_of_le next h s, fun h => ⟨?_, isSome_int_iff next h, ?_, ?_, ?_⟩⟩
  · exact ⟨size_cast h, two_le_size h, size_le lo hi, toInt_sub lo hi,
      (toInt_width lo hi).trans (size_cast h).symm, toNat_span h,
      by rw [toNat_zone, toNat_span h, cut],
      fun w => ⟨toInt_shift_offset h w, toInt_answer h w⟩⟩
  · intro k hbefore hk
    obtain ⟨v, hv, hval, hrange⟩ := exists_accept h hk
    exact ⟨v, int_eq_some_of_first next h hbefore hv, hval, hrange⟩
  · have hpos := two_le_size h
    refine ⟨half_lt_cut (by omega) (size_le lo hi), ?_, fun hdvd w hw => ?_⟩
    · simp only [accept_eq_none_iff h, ncard_tail]
    · rw [accept_eq_none_iff h, cut_eq_of_dvd hdvd] at hw
      exact absurd w.toNat_lt (by omega)
  · intro v hlo hhi
    rw [← ncard_accept h hlo hhi]
    congr 1
    ext w
    simp only [Set.mem_ofPred_eq, accept_eq_some_iff h]
    tauto

end CharacterSheet.Uniform
