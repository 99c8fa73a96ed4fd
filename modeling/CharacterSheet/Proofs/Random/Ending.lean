import CharacterSheet.Character
import CharacterSheet.Proofs.Random.Pcg
import CharacterSheet.Proofs.Random.Series
import CharacterSheet.Proofs.Random.Uniform
import Mathlib.Algebra.Order.BigOperators.Group.Finset

/-!
Draws from the permuted congruential generator end. In one turn of its cycle fewer than half of the
words lie in the tail of any range, so one below the cut always comes before 2^63 others, and every
roll made of such draws ends too.
-/
namespace CharacterSheet

namespace Draw

variable {σ α β : Type}

/-- A draw gives a result in every state of the source. -/
def Ends (d : Draw σ α) : Prop := ∀ s, (d s).isSome

lemma ends_pure (a : α) : Ends (pure a : Draw σ α) := fun _ => rfl

lemma Ends.bind {d : Draw σ α} {f : α → Draw σ β} (hd : Ends d) (hf : ∀ a, Ends (f a)) :
    Ends (d >>= f) := by
  intro s
  obtain ⟨⟨a, t⟩, hr⟩ := Option.isSome_iff_exists.mp (hd s)
  rw [bind_apply, hr]
  exact hf a t

end Draw

/-! ### Draws by remainder -/

namespace Uniform

variable {σ : Type} (next : σ → UInt32 × σ) (limit : ℕ)

/-- How a call is answered: a range of at most one integer draws nothing, and any other discards
fewer words than a limit before the first one below its cut. -/
inductive Answers : σ → Request → σ → Prop where
  | word (s : σ) : Answers s (.word (next s).1) (next s).2
  | bound {lo hi : Int32} (s : σ) (h : hi ≤ lo) : Answers s (.int lo hi lo) s
  | int {lo hi answer : Int32} {s : σ} {redraws : ℕ} (h : lo < hi) (hlimit : redraws < limit)
    (htail : ∀ j < redraws, cut (size lo hi) ≤ (Redraw.wordAfter next j s).toNat)
    (hcut : (Redraw.wordAfter next redraws s).toNat < cut (size lo hi))
    (hanswer : answer.toInt =
      lo.toInt + ((Redraw.wordAfter next redraws s).toNat % size lo hi : ℕ)) :
    Answers s (.int lo hi answer) (Redraw.stateAfter next (redraws + 1) s)

/-- Requests answered one after another. -/
inductive Transcript : σ → List Request → σ → Prop where
  | nil (s : σ) : Transcript s [] s
  | cons {s t u : σ} {first : Request} {others : List Request}
    (hfirst : Answers next limit s first t)
    (hothers : Transcript t others u) : Transcript s (first :: others) u

end Uniform

/-! ### The generator -/

namespace Pcg

open Redraw

/-- Half a turn of the cycle is too long for words from a tail alone. -/
lemma exists_below_cut (g : Pcg) {lo hi : Int32} (h : lo < hi) :
    ∃ k < 2 ^ 63, (wordAfter next k g).toNat < Uniform.cut (Uniform.size lo hi) := by
  by_contra hnone
  simp only [not_exists, not_and, not_lt] at hnone
  let tail : Finset UInt32 :=
    (Set.toFinite {w : UInt32 | Uniform.cut (Uniform.size lo hi) ≤ w.toNat}).toFinset
  have hmaps : ∀ k ∈ Finset.range (2 ^ 63), wordAfter next k g ∈ tail := by
    intro k hk
    rw [Set.Finite.mem_toFinset]
    exact hnone k (Finset.mem_range.mp hk)
  have hfiber : ∀ w ∈ tail, {k ∈ Finset.range (2 ^ 63) | wordAfter next k g = w}.card ≤ 2 ^ 32 := by
    intro w _
    have hsub : ((Finset.range (2 ^ 63)).filter fun k => wordAfter next k g = w : Set ℕ) ⊆
        {k | k < 2 ^ 64 ∧ wordAfter next (0 + k) g = w} := by
      intro k hk
      obtain ⟨hlt, hword⟩ := Finset.mem_filter.mp hk
      rw [Finset.mem_range] at hlt
      rw [Set.mem_ofPred_eq, zero_add]
      exact ⟨by omega, hword⟩
    have hfinite : {k | k < 2 ^ 64 ∧ wordAfter next (0 + k) g = w}.Finite :=
      (Set.finite_lt_nat (2 ^ 64)).subset fun _ hk => hk.1
    rw [← Set.ncard_coe_finset, ← ncard_wordAfter_next g 0 w]
    exact Set.ncard_le_ncard hsub hfinite
  have hcount := Finset.card_le_mul_card_image_of_maps_to hmaps (2 ^ 32) hfiber
  have htail : tail.card = 2 ^ 32 - Uniform.cut (Uniform.size lo hi) := by
    rw [← Uniform.ncard_tail, Set.ncard_eq_toFinset_card _ (Set.toFinite _)]
  have hcut : 2 ^ 31 < Uniform.cut (Uniform.size lo hi) :=
    Uniform.half_lt_cut (by have := Uniform.two_le_size h; omega) (Uniform.size_le lo hi)
  rw [Finset.card_range, htail] at hcount
  omega

lemma ends : RandomSource.Ends Pcg := by
  intro lo hi g
  by_cases h : hi ≤ lo
  · exact Option.isSome_iff_exists.mpr ⟨_, Uniform.int_of_le next h g⟩
  · obtain ⟨k, -, hk⟩ := exists_below_cut g (Int32.not_le.mp h)
    exact (Uniform.isSome_int_iff next (Int32.not_le.mp h)).mpr ⟨k, hk⟩

/-- One call is answered, whatever the state. The words before the first one below the cut are the
redraws. -/
lemma exists_request (call : Call) (g : Pcg) :
    ∃ first h, Draw.request call g = some (first, h) ∧ first.call = call ∧
      Uniform.Answers next (2 ^ 63) g first h := by
  cases call with
  | word => exact ⟨.word (next g).1, (next g).2, rfl, rfl, .word g⟩
  | int lo hi =>
    by_cases h : hi ≤ lo
    · refine ⟨.int lo hi lo, g, ?_, rfl, .bound g h⟩
      have hint : Draw.int lo hi g = some (lo, g) := Uniform.int_of_le next h g
      rw [Draw.request, Draw.bind_apply, hint]
      rfl
    · rw [Int32.not_le] at h
      have hsome := exists_below_cut g h
      obtain ⟨hlimit, hcut⟩ := Nat.find_spec hsome
      have htail : ∀ j < Nat.find hsome,
          Uniform.cut (Uniform.size lo hi) ≤ (wordAfter next j g).toNat := by
        intro j hj
        have := Nat.find_min hsome hj
        omega
      obtain ⟨v, hv, hanswer, -⟩ := Uniform.exists_accept h hcut
      have hint : Draw.int lo hi g = some (v, stateAfter next (Nat.find hsome + 1) g) :=
        Uniform.int_eq_some_of_first next h htail hv
      refine ⟨.int lo hi v, _, ?_, rfl, .int h hlimit htail hcut hanswer⟩
      rw [Draw.request, Draw.bind_apply, hint]
      rfl

/-- Any number of calls are answered, each from the state that the ones before it left. -/
lemma exists_requests (calls : List Call) (g : Pcg) :
    ∃ answered h, Draw.requests calls g = some (answered, h) ∧
      answered.map Request.call = calls ∧ Uniform.Transcript next (2 ^ 63) g answered h := by
  induction calls generalizing g with
  | nil => exact ⟨[], g, rfl, rfl, .nil g⟩
  | cons call calls ih =>
    obtain ⟨first, t, hfirst, hcall, hanswers⟩ := exists_request call g
    obtain ⟨others, u, hothers, hcalls, htranscript⟩ := ih t
    exact ⟨first :: others, u, Draw.requests_cons_of_eq hfirst hothers,
      by rw [List.map_cons, hcall, hcalls], .cons hanswers htranscript⟩

end Pcg

/-! ### Rolls -/

section Rolls

variable {σ : Type} [RandomSource σ] (hends : RandomSource.Ends σ)
include hends

lemma Draw.ends_int (lo hi : Int32) : Draw.Ends (Draw.int lo hi : Draw σ Int32) := hends lo hi

lemma AbilityScore.ends_rollIn (range : ScoreRange) :
    Draw.Ends (AbilityScore.rollIn range : Draw σ AbilityScore) :=
  (Draw.ends_int hends _ _).bind fun _ => Draw.ends_pure _

lemma Sheet.ends_rollIn (range : ScoreRange) : Draw.Ends (Sheet.rollIn range : Draw σ Sheet) := by
  have hroll := AbilityScore.ends_rollIn hends range
  exact hroll.bind fun _ => hroll.bind fun _ => hroll.bind fun _ => hroll.bind fun _ =>
    hroll.bind fun _ => hroll.bind fun _ => Draw.ends_pure _

lemma RaceKind.ends_randomId : Draw.Ends (RaceKind.randomId : Draw σ Int32) :=
  ((Draw.ends_int hends _ _).bind fun _ => Draw.ends_pure _).bind fun _ => Draw.ends_pure _

lemma Race.ends_select (raceId : Int32) :
    Draw.Ends (Race.select raceId : Draw σ (Option Race)) := by
  rw [Race.select]
  split
  · exact (RaceKind.ends_randomId hends).bind fun _ => Draw.ends_pure _
  · exact Draw.ends_pure _

lemma Character.ends_roll (raceId : Int32) (config : Config) :
    Draw.Ends (Character.roll raceId config : Draw σ (Except CharacterError Character)) := by
  rw [Character.roll]
  split
  · exact Draw.ends_pure _
  · refine (Race.ends_select hends raceId).bind fun race => ?_
    cases race with
    | none => exact Draw.ends_pure _
    | some race => exact (Sheet.ends_rollIn hends _).bind fun _ => Draw.ends_pure _

end Rolls

namespace Pcg

/-- Every finite sequence of draws from the generator ends, and every roll does. Each call is
answered after fewer than 2^63 words in vain, and leaves a state in which all later calls are
answered. -/
theorem draws_end (g : Pcg) :
    (∀ calls : List Call, ∃ answered h, Draw.requests calls g = some (answered, h) ∧
      answered.map Request.call = calls ∧ Uniform.Transcript next (2 ^ 63) g answered h ∧
      ∀ later : List Call, (Draw.requests later h).isSome) ∧
    (AbilityScore.roll g).isSome ∧ (∀ range, (AbilityScore.rollIn range g).isSome) ∧
    (Sheet.roll g).isSome ∧ (∀ range, (Sheet.rollIn range g).isSome) ∧
    (RaceKind.randomId g).isSome ∧ (∀ raceId, (Race.select raceId g).isSome) ∧
    ∀ raceId config, (Character.roll raceId config g).isSome := by
  refine ⟨fun calls => ?_, AbilityScore.ends_rollIn ends _ g,
    fun range => AbilityScore.ends_rollIn ends range g, Sheet.ends_rollIn ends _ g,
    fun range => Sheet.ends_rollIn ends range g, RaceKind.ends_randomId ends g,
    fun raceId => Race.ends_select ends raceId g,
    fun raceId config => Character.ends_roll ends raceId config g⟩
  obtain ⟨answered, h, hrun, hcalls, htranscript⟩ := exists_requests calls g
  refine ⟨answered, h, hrun, hcalls, htranscript, fun later => ?_⟩
  obtain ⟨others, t, hlater, -⟩ := exists_requests later h
  exact Option.isSome_iff_exists.mpr ⟨_, hlater⟩

end Pcg
end CharacterSheet
