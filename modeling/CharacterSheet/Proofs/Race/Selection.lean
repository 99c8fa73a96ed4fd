import CharacterSheet.Proofs.Random.Series
import CharacterSheet.Race.Selection
import Mathlib.Data.Int.Notation

/-!
Choosing a race. A number that is not negative is looked up and nothing is drawn; a negative one
stands for a single draw, and every integer that may come of it, even one outside the bounds, leads
to a race of the pool.
-/
namespace CharacterSheet

variable {σ : Type} [RandomSource σ]

namespace RaceKind

lemma ofPool_of_place {v : Int32} {place : ℕ} (hv : v.toInt = place) :
    ofPool v = randomPool.getD place human := by
  have hnonneg : ¬ v < 0 := by
    rw [Int32.lt_iff_toInt_lt, hv]
    simp
  rw [ofPool, if_neg hnonneg, hv, Int.toNat_natCast]

lemma ofPool_get {v : Int32} {place : Fin randomPool.length} (hv : v.toInt = (place : ℕ)) :
    ofPool v = randomPool.get place := by
  rw [ofPool_of_place hv, List.getD_eq_getElem?_getD, List.getElem?_eq_getElem place.isLt]
  rfl

lemma ofPool_of_outside {v : Int32} (hv : v.toInt < 0 ∨ randomPool.length ≤ v.toInt) :
    ofPool v = human := by
  rcases hv with hv | hv
  · have hneg : v < 0 := Int32.lt_iff_toInt_lt.mpr hv
    rw [ofPool, if_pos hneg]
  · have hplace : v.toInt = (v.toInt.toNat : ℕ) := by omega
    have hlength : randomPool.length ≤ v.toInt.toNat := by omega
    rw [ofPool_of_place hplace, List.getD_eq_getElem?_getD, List.getElem?_eq_none hlength]
    rfl

/-- Whatever the integer, it leads to a race of the pool. -/
lemma ofPool_mem (v : Int32) : ofPool v ∈ randomPool := by
  by_cases hv : v.toInt < 0 ∨ randomPool.length ≤ v.toInt
  · rw [ofPool_of_outside hv]
    decide
  · rw [not_or, Int.not_lt, Int.not_le] at hv
    have hplace : v.toInt = ((⟨v.toInt.toNat, by omega⟩ : Fin randomPool.length) : ℕ) := by
      change v.toInt = (v.toInt.toNat : ℤ)
      omega
    rw [ofPool_get hplace]
    exact List.get_mem _ _

lemma not_id_neg (k : RaceKind) : ¬ k.id < 0 := by cases k <;> decide

/-- Drawing a number is one draw for a place in the pool. -/
lemma randomId_eq : (randomId : Draw σ Int32) = (fun v => (ofPool v).id) <$> Draw.int 0 2 := by
  simp only [randomId, random, map_eq_pure_bind, bind_assoc, pure_bind]
  rfl

end RaceKind

namespace Race

/-- Selecting a race by a negative number is one draw for a place in the pool. -/
lemma select_of_neg {raceId : Int32} (h : raceId < 0) :
    (select raceId : Draw σ (Option Race)) =
      (fun place => some (ofKind (RaceKind.ofPool place))) <$> Draw.int 0 2 := by
  simp only [select, h, if_true, RaceKind.randomId, RaceKind.random, map_eq_pure_bind, bind_assoc,
    pure_bind, RaceKind.ofId?_id, Option.map_some]
  rfl

lemma select_of_nonneg {raceId : Int32} (h : ¬ raceId < 0) :
    (select raceId : Draw σ (Option Race)) = pure ((RaceKind.ofId? raceId).map ofKind) := by
  simp only [select, h, if_false, pure_bind]

/-- A number that is not negative is looked up, and nothing is asked of the source. -/
lemma select_apply_of_nonneg {raceId : Int32} (h : 0 ≤ raceId) (s : σ) :
    select raceId s = some ((RaceKind.ofId? raceId).map ofKind, s) := by
  rw [select_of_nonneg (Int32.not_lt.mpr h)]
  rfl

lemma select_apply_of_neg {raceId : Int32} (h : raceId < 0) {s t : σ} {v : Int32}
    (hdraw : RandomSource.randomInt 0 2 s = some (v, t)) :
    select raceId s = some (some (ofKind (RaceKind.ofPool v)), t) := by
  rw [select_of_neg h, Draw.map_apply, Draw.int, hdraw]
  rfl

lemma randomId_apply {s t : σ} {v : Int32} (hdraw : RandomSource.randomInt 0 2 s = some (v, t)) :
    RaceKind.randomId s = some ((RaceKind.ofPool v).id, t) := by
  rw [RaceKind.randomId_eq, Draw.map_apply, Draw.int, hdraw]
  rfl

lemma ofId?_map_eq_some_iff {raceId : Int32} {race : Race} :
    (RaceKind.ofId? raceId).map ofKind = some race ↔
      ∃ kind, kind.id = raceId ∧ race = ofKind kind := by
  rw [Option.map_eq_some_iff]
  constructor
  · rintro ⟨kind, hkind, rfl⟩
    exact ⟨kind, RaceKind.ofId?_eq_some_iff.mp hkind, rfl⟩
  · rintro ⟨kind, hkind, rfl⟩
    exact ⟨kind, RaceKind.ofId?_eq_some_iff.mpr hkind, rfl⟩

/-- Selecting a race is a look-up that asks nothing of the source, or a single draw that always
finds a race of the pool: the one at the place drawn, and human if there is no such place. To draw a
number first and look it up afterwards comes to the same. -/
theorem select_in_pool (raceId : Int32) (s : σ) :
    (0 ≤ raceId → ∃ found,
      select raceId s = some (found, s) ∧
      select raceId (Recorded.start s) = some (found, Recorded.start s) ∧
      (∀ race, found = some race ↔ ∃ kind : RaceKind, kind.id = raceId ∧ race = ofKind kind) ∧
      (found = none ↔ ∀ kind : RaceKind, kind.id ≠ raceId)) ∧
    (raceId < 0 → (RandomSource.randomInt 0 2 s).isSome → ∃ v t, ∃ kind : RaceKind,
      RandomSource.randomInt 0 2 s = some (v, t) ∧
      select raceId s = some (some (ofKind kind), t) ∧
      select raceId (Recorded.start s) = some (some (ofKind kind), ⟨t, [.int 0 2 v]⟩) ∧
      (∀ place : Fin RaceKind.randomPool.length, v.toInt = (place : ℕ) →
        kind = RaceKind.randomPool.get place) ∧
      (v.toInt < 0 ∨ RaceKind.randomPool.length ≤ v.toInt → kind = .human) ∧
      kind ∈ RaceKind.randomPool ∧ kind ≠ .dwarf ∧ kind ≠ .elf ∧
      RaceKind.randomId s = some (kind.id, t) ∧
      RaceKind.randomId (Recorded.start s) = some (kind.id, ⟨t, [.int 0 2 v]⟩) ∧
      select kind.id t = some (some (ofKind kind), t)) := by
  refine ⟨fun hid => ⟨_, select_apply_of_nonneg hid s, select_apply_of_nonneg hid _,
    fun race => ofId?_map_eq_some_iff, ?_⟩, fun hid hends => ?_⟩
  · rw [Option.map_eq_none_iff, Option.eq_none_iff_forall_ne_some]
    exact forall_congr' fun kind => not_congr RaceKind.ofId?_eq_some_iff
  · obtain ⟨⟨v, t⟩, hdraw⟩ := Option.isSome_iff_exists.mp hends
    have hrecord : RandomSource.randomInt 0 2 (Recorded.start s) =
        some (v, ⟨t, [.int 0 2 v]⟩) := by
      change (RandomSource.randomInt 0 2 s).map _ = _
      rw [hdraw]
      rfl
    have hpool := RaceKind.ofPool_mem v
    refine ⟨v, t, .ofPool v, hdraw, select_apply_of_neg hid hdraw,
      select_apply_of_neg hid hrecord, fun place => RaceKind.ofPool_get,
      RaceKind.ofPool_of_outside, hpool, ?_, ?_, randomId_apply hdraw, randomId_apply hrecord, ?_⟩
    · rintro hdwarf
      rw [hdwarf] at hpool
      exact absurd hpool (by decide)
    · rintro helf
      rw [helf] at hpool
      exact absurd hpool (by decide)
    · rw [select_apply_of_nonneg (Int32.not_lt.mp (RaceKind.not_id_neg _)), RaceKind.ofId?_id]
      rfl

/-- A source that gives one integer whatever the bounds. -/
structure Stubborn where
  answer : Int32
  deriving DecidableEq, Repr

instance : RandomSource Stubborn :=
  ⟨fun s => (s.answer.toUInt32, s), fun _ _ s => some (s.answer, s)⟩

/-- A place far outside of the pool stands for the human race. -/
theorem far_place_gives_human :
    (-7 : Int32) < 0 ∧ (RandomSource.randomInt 0 2 (Stubborn.mk (-2147483648))).isSome ∧
    ∃ v t, select (-7) (Recorded.start (Stubborn.mk (-2147483648))) =
      some (some (ofKind .human), ⟨t, [.int 0 2 v]⟩) := by
  have hneg : (-7 : Int32) < 0 := by decide
  have hends : (RandomSource.randomInt 0 2 (Stubborn.mk (-2147483648))).isSome := rfl
  obtain ⟨v, t, kind, hdraw, -, hselect, -, houtside, -⟩ := (select_in_pool (-7) _).2 hneg hends
  cases hdraw
  rw [houtside (.inl (by decide))] at hselect
  exact ⟨hneg, hends, _, _, hselect⟩

end Race
end CharacterSheet
