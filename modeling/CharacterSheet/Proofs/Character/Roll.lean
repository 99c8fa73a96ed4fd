import CharacterSheet.Character
import CharacterSheet.Proofs.Race.Selection
import Mathlib.Data.Int.Notation
import Mathlib.Data.List.GetD
import Mathlib.Tactic.SplitIfs

/-!
What rolling a character does. A roll that fails leaves the source alone. A roll that succeeds is
one series of draws, for the race if it is random and then for the six scores, and the character is
a function of the integers drawn.
-/
namespace CharacterSheet

variable {σ : Type} [RandomSource σ]

@[simp] lemma Ability.getD_map_all {α : Type} (f : Ability → α) (a : Ability) (b : α) :
    (all.map f).getD a.index b = f a := by
  cases a <;> rfl

namespace ScoreRange

/-- The range as bounds to draw between. -/
def bounds (range : ScoreRange) : Int32 × Int32 :=
  (Int32.ofNat range.min.toNat, Int32.ofNat range.max.toNat)

lemma toInt32_eq (n : UInt8) : n.toUInt32.toInt32 = Int32.ofNat n.toNat := by
  rw [← UInt32.ofNat_uInt8ToNat, UInt32.toInt32_ofNat']

lemma toInt_ofNat (n : UInt8) : (Int32.ofNat n.toNat).toInt = n.toNat := by
  have := n.toNat_lt
  exact Int32.toInt_ofNat_of_lt (by omega)

lemma bounds_lt {range : ScoreRange} (h : range.min < range.max) :
    range.bounds.1 < range.bounds.2 := by
  rw [Int32.lt_iff_toInt_lt, bounds, toInt_ofNat, toInt_ofNat]
  exact Int.ofNat_lt.mpr (UInt8.lt_iff_toNat_lt.mp h)

end ScoreRange

/-- A drawn integer is the score if it fits a byte, and the fallback stands in for any other. -/
lemma toNat_scoreOr (fallback : UInt8) (v : Int32) :
    ((scoreOr fallback v).toNat : ℤ) =
      if 0 ≤ v.toInt ∧ v.toInt ≤ 255 then v.toInt else fallback.toNat := by
  have hfits : 0 ≤ v ∧ v ≤ 255 ↔ 0 ≤ v.toInt ∧ v.toInt ≤ 255 := by
    rw [Int32.le_iff_toInt_le, Int32.le_iff_toInt_le]
    rfl
  simp only [scoreOr, hfits]
  split_ifs with h
  · have hlt : v.toInt.toNat < UInt8.size := by
      change v.toInt.toNat < 256
      omega
    rw [UInt8.toNat_ofNat_of_lt' hlt]
    omega
  · rfl

lemma scoreOr_mem {range : ScoreRange} {v : Int32} (hlo : range.bounds.1 ≤ v)
    (hhi : v ≤ range.bounds.2) :
    range.min ≤ scoreOr range.min v ∧ scoreOr range.min v ≤ range.max := by
  have hmax := range.max.toNat_lt
  rw [Int32.le_iff_toInt_le, ScoreRange.bounds, ScoreRange.toInt_ofNat] at hlo hhi
  have hscore := toNat_scoreOr range.min v
  rw [if_pos (by omega)] at hscore
  rw [UInt8.le_iff_toNat_le, UInt8.le_iff_toNat_le]
  omega

namespace Sheet

/-- The sheet of six drawn integers. -/
def ofDrawn (bonus : UInt8) (range : ScoreRange) (drawn : List Int32) : Sheet :=
  tabulate bonus fun a => ⟨scoreOr range.min (drawn.getD a.index 0), false⟩

lemma rollIn_eq_series (range : ScoreRange) :
    (rollIn range : Draw σ Sheet) =
      ofDrawn 0 range <$> Draw.series (List.replicate 6 range.bounds) := by
  simp only [rollIn, AbilityScore.rollIn, Draw.series, List.replicate, ScoreRange.bounds,
    ScoreRange.toInt32_eq, map_eq_pure_bind, bind_assoc, pure_bind]
  rfl

end Sheet

namespace Character

/-- The ranges that a roll draws from, in order. -/
def ranges (raceId : Int32) (range : ScoreRange) : List (Int32 × Int32) :=
  (if raceId < 0 then [(0, 2)] else []) ++ List.replicate 6 range.bounds

/-- The race that a roll gives, where the first integer drawn is a place in the pool. -/
def kindOfDrawn (raceId : Int32) (drawn : List Int32) : RaceKind :=
  if raceId < 0 then .ofPool (drawn.getD 0 0) else (RaceKind.ofId? raceId).getD .human

/-- The integers drawn for the scores. -/
def scoresDrawn (raceId : Int32) (drawn : List Int32) : List Int32 :=
  if raceId < 0 then drawn.tail else drawn

/-- The character that a roll makes of the integers drawn. -/
def ofDrawn (raceId : Int32) (config : Config) (drawn : List Int32) : Character :=
  ofParts (.ofKind (kindOfDrawn raceId drawn))
    (.ofDrawn config.proficiencyBonus config.scoreRoll (scoresDrawn raceId drawn))

lemma kindOfDrawn_of_neg {raceId : Int32} (h : raceId < 0) (place : Int32) (drawn : List Int32) :
    kindOfDrawn raceId (place :: drawn) = .ofPool place := by
  simp [kindOfDrawn, h]

lemma scoresDrawn_of_neg {raceId : Int32} (h : raceId < 0) (place : Int32) (drawn : List Int32) :
    scoresDrawn raceId (place :: drawn) = drawn := by
  simp [scoresDrawn, h]

lemma get_base_ofDrawn (raceId : Int32) (config : Config) (drawn : List Int32) (a : Ability) :
    (ofDrawn raceId config drawn).base.get a =
      ⟨scoreOr config.scoreRoll.min ((scoresDrawn raceId drawn).getD a.index 0), false⟩ :=
  Sheet.get_tabulate _ _ a

/-- A roll that can succeed is a series of draws. -/
lemma roll_eq_series {raceId : Int32} {config : Config}
    (hrange : config.scoreRoll.min ≤ config.scoreRoll.max)
    (hid : raceId < 0 ∨ (RaceKind.ofId? raceId).isSome) :
    (roll raceId config : Draw σ (Except CharacterError Character)) =
      (fun drawn => .ok (ofDrawn raceId config drawn)) <$>
        Draw.series (ranges raceId config.scoreRoll) := by
  simp only [roll, Config.validate_eq_ok_iff.mpr hrange]
  by_cases hneg : raceId < 0
  · have hdrawn : ∀ place drawn, ofDrawn raceId config (place :: drawn) =
        ofParts (.ofKind (.ofPool place)) ((Sheet.ofDrawn 0 config.scoreRoll
          drawn).setProficiencyBonus config.proficiencyBonus) := by
      intro place drawn
      rw [ofDrawn, kindOfDrawn_of_neg hneg, scoresDrawn_of_neg hneg]
      rfl
    simp only [Race.select_of_neg hneg, Sheet.rollIn_eq_series, ranges, hneg, if_true,
      List.singleton_append, Draw.series, map_eq_pure_bind, bind_assoc, pure_bind, hdrawn]
  · obtain ⟨kind, hkind⟩ := Option.isSome_iff_exists.mp (hid.resolve_left hneg)
    have hdrawn : ∀ drawn, ofDrawn raceId config drawn = ofParts (.ofKind kind)
        ((Sheet.ofDrawn 0 config.scoreRoll drawn).setProficiencyBonus config.proficiencyBonus) := by
      intro drawn
      simp only [ofDrawn, kindOfDrawn, scoresDrawn, hneg, if_false, hkind]
      rfl
    simp only [Race.select_of_nonneg hneg, Sheet.rollIn_eq_series, ranges, hneg, if_false,
      List.nil_append, map_eq_pure_bind, bind_assoc, pure_bind, hdrawn, hkind, Option.map_some]

lemma roll_of_series {raceId : Int32} {config : Config}
    (hrange : config.scoreRoll.min ≤ config.scoreRoll.max)
    (hid : raceId < 0 ∨ (RaceKind.ofId? raceId).isSome) {s t : σ} {drawn : List Int32}
    (h : Draw.series (ranges raceId config.scoreRoll) s = some (drawn, t)) :
    roll raceId config s = some (.ok (ofDrawn raceId config drawn), t) := by
  rw [roll_eq_series hrange hid, Draw.map_apply, h]
  rfl

/-- An empty range is refused whatever the race, and nothing is drawn. -/
lemma roll_of_empty_range {config : Config} (h : config.scoreRoll.max < config.scoreRoll.min)
    (raceId : Int32) (s : σ) :
    roll raceId config s = some (.error (.config (.invalidScoreRange config.scoreRoll)), s) := by
  simp only [roll, Config.validate, h, if_true]
  rfl

/-- A number that belongs to no race is refused, and nothing is drawn. -/
lemma roll_of_unknown_race {raceId : Int32} {config : Config}
    (hrange : config.scoreRoll.min ≤ config.scoreRoll.max) (hneg : ¬ raceId < 0)
    (hid : RaceKind.ofId? raceId = none) (s : σ) :
    roll raceId config s = some (.error (.unknownRace raceId), s) := by
  simp only [roll, Config.validate_eq_ok_iff.mpr hrange, Race.select_of_nonneg hneg, hid,
    Option.map_none, pure_bind]
  rfl

/-- A roll succeeds just when its range is in order, a race is selected and a sheet is rolled, and
it gives the two composed. -/
lemma roll_eq_ok_iff {raceId : Int32} {config : Config} {s t : σ} {hero : Character} :
    roll raceId config s = some (.ok hero, t) ↔
      config.scoreRoll.min ≤ config.scoreRoll.max ∧
      ∃ race selected sheet, Race.select raceId s = some (some race, selected) ∧
        Sheet.rollIn config.scoreRoll selected = some (sheet, t) ∧
        hero = .ofParts race (sheet.setProficiencyBonus config.proficiencyBonus) := by
  constructor
  · intro h
    have hrange : config.scoreRoll.min ≤ config.scoreRoll.max := by
      by_contra hrange
      rw [roll_of_empty_range (UInt8.not_le.mp hrange)] at h
      cases h
    rw [roll, Config.validate_eq_ok_iff.mpr hrange] at h
    obtain ⟨⟨found, selected⟩, hselect, hrest⟩ := Option.bind_eq_some_iff.mp h
    cases found with
    | none => cases hrest
    | some race =>
      obtain ⟨⟨sheet, rolled⟩, hroll, hhero⟩ := Option.bind_eq_some_iff.mp hrest
      cases hhero
      exact ⟨hrange, race, selected, sheet, hselect, hroll, rfl⟩
  · rintro ⟨hrange, race, selected, sheet, hselect, hroll, rfl⟩
    rw [roll, Config.validate_eq_ok_iff.mpr hrange]
    dsimp only
    rw [Draw.bind_apply, hselect, Option.bind_some]
    dsimp only
    rw [Draw.bind_apply, hroll]
    rfl

lemma isSome_ofId?_iff {n : Int32} :
    (RaceKind.ofId? n).isSome ↔ n ∈ ([0, 1, 2, 3, 4] : List Int32) := by
  rw [Option.isSome_iff_exists]
  simp only [RaceKind.ofId?_eq_some_iff]
  constructor
  · rintro ⟨kind, rfl⟩
    cases kind <;> decide
  · intro h
    simp only [List.mem_cons, List.not_mem_nil, or_false] at h
    rcases h with rfl | rfl | rfl | rfl | rfl
    exacts [⟨.human, rfl⟩, ⟨.hillDwarf, rfl⟩, ⟨.highElf, rfl⟩, ⟨.dwarf, rfl⟩, ⟨.elf, rfl⟩]

/-- The integers for the scores are one for each ability, in canonical order. -/
lemma map_all_getD {α : Type} (f : Int32 → α) {drawn : List Int32} (h : drawn.length = 6) :
    drawn.map f = Ability.all.map fun a => f (drawn.getD a.index 0) := by
  match drawn, h with
  | [_, _, _, _, _, _], _ => rfl

lemma answered_ranges {raceId : Int32} {range : ScoreRange} {drawn : List Int32}
    (h : drawn.length = (ranges raceId range).length) :
    Draw.answered (ranges raceId range) drawn =
      (if raceId < 0 then [.int 0 2 (drawn.getD 0 0)] else []) ++ Ability.all.map fun a =>
        .int range.bounds.1 range.bounds.2 ((scoresDrawn raceId drawn).getD a.index 0) := by
  unfold ranges scoresDrawn at *
  split_ifs at h ⊢ with hneg
  · cases drawn with
    | nil => simp at h
    | cons place drawn =>
      have hlength : drawn.length = 6 := by simpa using h
      rw [List.singleton_append, Draw.answered_cons, Draw.answered_replicate hlength,
        map_all_getD _ hlength]
      rfl
  · have hlength : drawn.length = 6 := by simpa using h
    rw [List.nil_append, Draw.answered_replicate hlength, map_all_getD _ hlength]
    rfl

lemma length_scoresDrawn {raceId : Int32} {range : ScoreRange} {drawn : List Int32}
    (h : drawn.length = (ranges raceId range).length) : (scoresDrawn raceId drawn).length = 6 := by
  unfold ranges scoresDrawn at *
  split_ifs at h ⊢ with hneg
  · simpa using congrArg Nat.pred h
  · simpa using h

/-- A source that keeps to its bounds makes every integer for a score lie in the range. -/
lemma bounds_of_mem_scoresDrawn (hbounds : RandomSource.KeepsBounds σ) {raceId : Int32}
    {range : ScoreRange} (hrange : range.min ≤ range.max) {s t : σ} {drawn : List Int32}
    (h : Draw.series (ranges raceId range) s = some (drawn, t)) :
    ∀ v ∈ scoresDrawn raceId drawn, range.bounds.1 ≤ v ∧ v ≤ range.bounds.2 := by
  have hproper : range.bounds.1 ≤ range.bounds.2 := by
    rw [Int32.le_iff_toInt_le, ScoreRange.bounds, ScoreRange.toInt_ofNat, ScoreRange.toInt_ofNat]
    exact Int.ofNat_le.mpr (UInt8.le_iff_toNat_le.mp hrange)
  unfold ranges at h
  unfold scoresDrawn
  split_ifs at h ⊢ with hneg
  · have hall := Draw.forall₂_series hbounds (by simpa using hproper) h
    obtain ⟨place, rest, -, hrest, rfl⟩ := List.forall₂_cons_left_iff.mp hall
    exact Draw.forall_mem_of_forall₂_replicate hrest
  · have hall := Draw.forall₂_series hbounds (by simpa using hproper) h
    exact Draw.forall_mem_of_forall₂_replicate hall

/-- Rolling a character meets its whole contract for every number, every configuration and every
source. An empty range is refused first, a number that belongs to no race second, and every other
roll succeeds. The source is asked for a race if that is random, then for six scores, and for no
more; each integer drawn is the score of its ability, if it is a score at all. -/
theorem roll_contract (raceId : Int32) (config : Config) (s : σ) :
    (config.scoreRoll.max < config.scoreRoll.min →
      roll raceId config s =
        some (.error (.config (.invalidScoreRange config.scoreRoll)), s)) ∧
    (config.scoreRoll.min ≤ config.scoreRoll.max → 0 ≤ raceId →
      raceId ∉ ([0, 1, 2, 3, 4] : List Int32) →
      roll raceId config s = some (.error (.unknownRace raceId), s)) ∧
    (config.scoreRoll.min ≤ config.scoreRoll.max →
      raceId < 0 ∨ raceId ∈ ([0, 1, 2, 3, 4] : List Int32) → RandomSource.Ends σ →
      ∃ (hero : Character) (t : σ) (place : Int32) (drawn : Ability → Int32),
        roll raceId config s = some (.ok hero, t) ∧
        roll raceId config (Recorded.start s) = some (.ok hero,
          ⟨t, (if raceId < 0 then [.int 0 2 place] else []) ++ Ability.all.map fun a =>
            .int (Int32.ofNat config.scoreRoll.min.toNat) (Int32.ofNat config.scoreRoll.max.toNat)
              (drawn a)⟩) ∧
        hero.race = .ofKind hero.race.kind ∧
        (if raceId < 0 then hero.race.kind = .ofPool place else hero.race.id = raceId) ∧
        (∀ a, ((hero.base.score a).toNat : ℤ) =
          if 0 ≤ (drawn a).toInt ∧ (drawn a).toInt ≤ 255 then (drawn a).toInt
          else config.scoreRoll.min.toNat) ∧
        (∀ a, hero.base.isProficient a = false) ∧
        hero.base.proficiencyBonus = config.proficiencyBonus ∧
        hero.scores = hero.base + hero.race.bonus ∧
        (RandomSource.KeepsBounds σ →
          ∀ a, config.scoreRoll.min ≤ hero.base.score a ∧
            hero.base.score a ≤ config.scoreRoll.max)) := by
  refine ⟨fun hrange => roll_of_empty_range hrange raceId s, fun hrange hnonneg hid => ?_,
    fun hrange hid hends => ?_⟩
  · refine roll_of_unknown_race hrange (Int32.not_lt.mpr hnonneg) ?_ s
    rwa [← Option.not_isSome_iff_eq_none, isSome_ofId?_iff]
  · rw [← isSome_ofId?_iff] at hid
    obtain ⟨drawn, t, hseries, hlength⟩ :=
      Draw.exists_series hends (ranges raceId config.scoreRoll) s
    have hrecord : Draw.series (ranges raceId config.scoreRoll) (Recorded.start s) = some (drawn,
        ⟨t, Draw.answered (ranges raceId config.scoreRoll) drawn⟩) := by
      rw [Draw.series_recorded]
      simp [Recorded.start, hseries]
    refine ⟨ofDrawn raceId config drawn, t, drawn.getD 0 0,
      fun a => (scoresDrawn raceId drawn).getD a.index 0, roll_of_series hrange hid hseries, ?_,
      rfl, ?_, fun a => ?_, fun a => ?_, rfl, rfl, fun hbounds a => ?_⟩
    · rw [roll_of_series hrange hid hrecord, answered_ranges hlength]
      rfl
    · change if raceId < 0 then kindOfDrawn raceId drawn = .ofPool (drawn.getD 0 0)
        else (kindOfDrawn raceId drawn).id = raceId
      unfold kindOfDrawn
      split_ifs with hneg
      · rfl
      · obtain ⟨kind, hkind⟩ := Option.isSome_iff_exists.mp (hid.resolve_left hneg)
        rw [hkind]
        exact RaceKind.ofId?_eq_some_iff.mp hkind
    · rw [Sheet.score, get_base_ofDrawn, toNat_scoreOr]
    · rw [Sheet.isProficient, get_base_ofDrawn]
    · rw [Sheet.score, get_base_ofDrawn]
      have hindex : a.index < (scoresDrawn raceId drawn).length := by
        rw [length_scoresDrawn hlength]
        exact a.index.isLt
      have hmem : (scoresDrawn raceId drawn).getD a.index 0 ∈ scoresDrawn raceId drawn := by
        rw [List.getD_eq_getElem _ _ hindex]
        exact List.getElem_mem hindex
      obtain ⟨hlo, hhi⟩ := bounds_of_mem_scoresDrawn hbounds hrange hseries _ hmem
      exact scoreOr_mem hlo hhi

end Character
end CharacterSheet
