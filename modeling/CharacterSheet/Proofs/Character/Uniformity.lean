import CharacterSheet.Proofs.Character.Roll
import CharacterSheet.Proofs.Random.Stream
import CharacterSheet.Proofs.Random.Uniform
import CharacterSheet.Random.Pcg

/-!
A random character is drawn uniformly. Seven accepted words make a character, one for the race and
one for each ability, and every race of the pool with every six scores of the range is made by the
same number of them. Words that are rejected on the way make no difference.
-/
namespace CharacterSheet

instance : Fintype Ability := ⟨⟨Ability.all, by decide⟩, Ability.mem_all⟩

namespace Ability

lemma card_eq : Fintype.card Ability = 6 := rfl

end Ability

def ScoreRange.size (range : ScoreRange) : ℕ := range.max.toNat - range.min.toNat + 1

namespace ScoreRange

variable {range : ScoreRange}

lemma size_bounds (h : range.min < range.max) :
    Uniform.size range.bounds.1 range.bounds.2 = range.size := by
  have := UInt8.lt_iff_toNat_lt.mp h
  rw [Uniform.size, bounds, toInt_ofNat, toInt_ofNat, size]
  omega

end ScoreRange

/-- The score at a place of the range, counted from its lower bound. -/
lemma toNat_scoreOr_of_place {range : ScoreRange} {v : Int32} {place : ℕ}
    (hplace : place < range.size) (hv : v.toInt = range.bounds.1.toInt + place) :
    (scoreOr range.min v).toNat = range.min.toNat + place := by
  have hmin := range.min.toNat_lt
  have hmax := range.max.toNat_lt
  have hsize : range.size = range.max.toNat - range.min.toNat + 1 := rfl
  have hscore := toNat_scoreOr range.min v
  rw [ScoreRange.bounds, ScoreRange.toInt_ofNat] at hv
  rw [if_pos (by omega)] at hscore
  omega

namespace RaceKind

lemma randomPool_getD_inj {i j : ℕ} (hi : i < 3) (hj : j < 3) :
    randomPool.getD i human = randomPool.getD j human ↔ i = j := by
  have hpool : ∀ i j : Fin 3,
      randomPool.getD i.val human = randomPool.getD j.val human ↔ i.val = j.val := by decide
  exact hpool ⟨i, hi⟩ ⟨j, hj⟩

end RaceKind

/-- Pairs of a point and a family are counted one place at a time. -/
lemma ncard_point_and_family {ι α β : Type} [Fintype ι] (p : α → Prop) (q : ι → β → Prop) :
    {w : α × (ι → β) | p w.1 ∧ ∀ i, q i (w.2 i)}.ncard =
      {a | p a}.ncard * ∏ i, {b | q i b}.ncard := by
  have hset : {w : α × (ι → β) | p w.1 ∧ ∀ i, q i (w.2 i)} =
      {a | p a} ×ˢ Set.pi Set.univ fun i => {b | q i b} := by
    ext w
    simp
  have hfamily : (Set.pi Set.univ fun i => {b | q i b}).ncard = ∏ i, {b | q i b}.ncard := by
    simp only [← Nat.card_coe_set_eq]
    rw [Nat.card_congr (Equiv.Set.univPi _), Nat.card_pi]
  rw [hset, Set.ncard_prod, hfamily]

namespace Character

variable {raceId : Int32} {config : Config}

/-- A source that draws by remainder rolls the same character as the stream of its words. -/
lemma roll_words {σ : Type} [RandomSource σ] (hsource : RandomSource.ByRemainder σ)
    (hid : raceId < 0) (hrange : config.scoreRoll.min < config.scoreRoll.max) (s : σ) :
    roll raceId config (RandomSource.words s) =
      (roll raceId config s).map (Prod.map id RandomSource.words) := by
  have hle : config.scoreRoll.min ≤ config.scoreRoll.max := UInt8.le_of_lt hrange
  rw [roll_eq_series hle (.inl hid), roll_eq_series hle (.inl hid), Draw.map_apply, Draw.map_apply,
    Draw.series_words hsource, Option.map_map, Option.map_map]
  rfl

/-- Seven accepted words are one series of draws. -/
lemma series_ranges_of_lt_cut (hid : raceId < 0)
    (hrange : config.scoreRoll.min < config.scoreRoll.max) {word : UInt32}
    {wordOf : Ability → UInt32} (hrace : word.toNat < Uniform.cut 3)
    (hscore : ∀ a, (wordOf a).toNat < Uniform.cut config.scoreRoll.size) (rest : Stream' UInt32) :
    Draw.series (ranges raceId config.scoreRoll) ((word :: Ability.all.map wordOf) ++ₛ rest) =
      some (Uniform.answer 0 2 word :: (Ability.all.map wordOf).map
        (Uniform.answer config.scoreRoll.bounds.1 config.scoreRoll.bounds.2), rest) := by
  have hpool : (0 : Int32) < 2 := by decide
  have hwords : ∀ w ∈ Ability.all.map wordOf, w.toNat < Uniform.cut
      (Uniform.size config.scoreRoll.bounds.1 config.scoreRoll.bounds.2) := by
    intro w hw
    obtain ⟨a, -, rfl⟩ := List.mem_map.mp hw
    rw [ScoreRange.size_bounds hrange]
    exact hscore a
  have hseries := Draw.series_replicate_of_lt_cut (ScoreRange.bounds_lt hrange) hwords rest
  rw [ranges, if_pos hid, List.singleton_append, Stream'.cons_append_stream,
    Draw.series_of_accept hpool (Uniform.accept_of_lt_cut hpool hrace)]
  exact congrArg _ hseries

/-- Seven accepted words make a character and leave the rest of the stream. -/
lemma roll_of_lt_cut (hid : raceId < 0) (hrange : config.scoreRoll.min < config.scoreRoll.max)
    {word : UInt32} {wordOf : Ability → UInt32} (hrace : word.toNat < Uniform.cut 3)
    (hscore : ∀ a, (wordOf a).toNat < Uniform.cut config.scoreRoll.size) (rest : Stream' UInt32) :
    ∃ hero, roll raceId config ((word :: Ability.all.map wordOf) ++ₛ rest) =
        some (.ok hero, rest) ∧
      hero.race.kind = RaceKind.randomPool.getD (word.toNat % 3) .human ∧
      ∀ a, (hero.base.score a).toNat =
        config.scoreRoll.min.toNat + (wordOf a).toNat % config.scoreRoll.size := by
  have hseries := series_ranges_of_lt_cut hid hrange hrace hscore rest
  refine ⟨_, roll_of_series (UInt8.le_of_lt hrange) (.inl hid) hseries, ?_, fun a => ?_⟩
  · have hplace : (Uniform.answer 0 2 word).toInt = (word.toNat % 3 : ℕ) :=
      (Uniform.toInt_answer (by decide) word).trans (zero_add _)
    rw [← RaceKind.ofPool_of_place hplace]
    exact kindOfDrawn_of_neg hid _ _
  · rw [Sheet.score, get_base_ofDrawn, scoresDrawn_of_neg hid, List.map_map, Ability.getD_map_all]
    refine toNat_scoreOr_of_place (Nat.mod_lt _ (Nat.succ_pos _)) ?_
    rw [← ScoreRange.size_bounds hrange]
    exact Uniform.toInt_answer (ScoreRange.bounds_lt hrange) (wordOf a)

/-- Seven accepted words make the character with a race of the pool and with scores of the range
just when each of them has the right remainder. -/
lemma exists_roll_iff (hid : raceId < 0) (hrange : config.scoreRoll.min < config.scoreRoll.max)
    {word : UInt32} {wordOf : Ability → UInt32} (hrace : word.toNat < Uniform.cut 3)
    (hcut : ∀ a, (wordOf a).toNat < Uniform.cut config.scoreRoll.size) {place : ℕ}
    (hplace : place < 3) {score : Ability → UInt8} (hscore : ∀ a, config.scoreRoll.min ≤ score a)
    (rest : Stream' UInt32) :
    (∃ hero, roll raceId config ((word :: Ability.all.map wordOf) ++ₛ rest) =
        some (.ok hero, rest) ∧
      hero.race.kind = RaceKind.randomPool.getD place .human ∧
      ∀ a, hero.base.score a = score a) ↔
      word.toNat % 3 = place ∧ ∀ a, (wordOf a).toNat % config.scoreRoll.size =
        (score a).toNat - config.scoreRoll.min.toNat := by
  obtain ⟨hero, hroll, hkind, hbase⟩ := roll_of_lt_cut hid hrange hrace hcut rest
  have hplaces : hero.race.kind = RaceKind.randomPool.getD place .human ↔
      word.toNat % 3 = place := by
    rw [hkind]
    exact RaceKind.randomPool_getD_inj (Nat.mod_lt _ (by decide)) hplace
  have hscores : ∀ a, hero.base.score a = score a ↔ (wordOf a).toNat % config.scoreRoll.size =
      (score a).toNat - config.scoreRoll.min.toNat := by
    intro a
    have hlo := UInt8.le_iff_toNat_le.mp (hscore a)
    rw [← UInt8.toNat_inj, hbase a]
    omega
  rw [← hplaces, ← forall_congr' hscores]
  constructor
  · rintro ⟨other, hother, hsame⟩
    rw [hroll] at hother
    cases hother
    exact hsame
  · exact fun hsame => ⟨hero, hroll, hsame⟩

/-- Every race of the pool with every six scores of the range is made by the same number of
words. -/
lemma ncard_roll (hid : raceId < 0) (hrange : config.scoreRoll.min < config.scoreRoll.max)
    {kind : RaceKind} (hkind : kind ∈ RaceKind.randomPool) {score : Ability → UInt8}
    (hscore : ∀ a, config.scoreRoll.min ≤ score a ∧ score a ≤ config.scoreRoll.max)
    (rest : Stream' UInt32) :
    {w : UInt32 × (Ability → UInt32) |
      (w.1.toNat < Uniform.cut 3 ∧ ∀ a, (w.2 a).toNat < Uniform.cut config.scoreRoll.size) ∧
      ∃ hero, roll raceId config ((w.1 :: Ability.all.map w.2) ++ₛ rest) = some (.ok hero, rest) ∧
        hero.race.kind = kind ∧ ∀ a, hero.base.score a = score a}.ncard =
      2 ^ 32 / 3 * (2 ^ 32 / config.scoreRoll.size) ^ 6 := by
  obtain ⟨place, hplace, rfl⟩ : ∃ place < 3, RaceKind.randomPool.getD place .human = kind := by
    obtain ⟨place, hplace, rfl⟩ := List.mem_iff_getElem.mp hkind
    exact ⟨place, hplace, List.getD_eq_getElem _ _ hplace⟩
  have hone : ∀ a, {w : UInt32 | w.toNat < Uniform.cut config.scoreRoll.size ∧
      w.toNat % config.scoreRoll.size = (score a).toNat - config.scoreRoll.min.toNat}.ncard =
        2 ^ 32 / config.scoreRoll.size := by
    intro a
    have hhi := UInt8.le_iff_toNat_le.mp (hscore a).2
    apply Uniform.ncard_remainder
    rw [ScoreRange.size]
    omega
  have hall := ncard_point_and_family
    (fun w : UInt32 => w.toNat < Uniform.cut 3 ∧ w.toNat % 3 = place)
    fun a (w : UInt32) => w.toNat < Uniform.cut config.scoreRoll.size ∧
      w.toNat % config.scoreRoll.size = (score a).toNat - config.scoreRoll.min.toNat
  rw [Uniform.ncard_remainder hplace, Finset.prod_congr rfl fun a _ => hone a, Finset.prod_const,
    Finset.card_univ, Ability.card_eq] at hall
  rw [← hall]
  congr 1
  ext w
  simp only [Set.mem_ofPred_eq, forall_and]
  constructor
  · rintro ⟨⟨hrace, hcut⟩, hmakes⟩
    obtain ⟨hplace', hscore'⟩ :=
      (exists_roll_iff hid hrange hrace hcut hplace (fun a => (hscore a).1) rest).mp hmakes
    exact ⟨⟨hrace, hplace'⟩, hcut, hscore'⟩
  · rintro ⟨⟨hrace, hplace'⟩, hcut, hscore'⟩
    exact ⟨⟨hrace, hcut⟩, (exists_roll_iff hid hrange hrace hcut hplace (fun a => (hscore a).1)
      rest).mpr ⟨hplace', hscore'⟩⟩

/-- A random character is drawn uniformly and independently of the words that are rejected. A source
that draws by remainder matters only through its words. Every race of the pool with every six scores
is made by the same number of accepted words, and words put in that a draw rejects change neither
the character nor the words left. -/
theorem roll_uniform (raceId : Int32) (config : Config) (hid : raceId < 0)
    (hrange : config.scoreRoll.min < config.scoreRoll.max) :
    (∀ (σ : Type) [RandomSource σ], RandomSource.ByRemainder σ → ∀ s : σ,
      (roll raceId config s).map (Prod.map id RandomSource.words) =
        roll raceId config (RandomSource.words s)) ∧
    (∀ kind ∈ RaceKind.randomPool, ∀ score : Ability → UInt8,
      (∀ a, config.scoreRoll.min ≤ score a ∧ score a ≤ config.scoreRoll.max) →
      ∀ rest : Stream' UInt32,
        {w : UInt32 × (Ability → UInt32) |
          (w.1.toNat < Uniform.cut 3 ∧ ∀ a, (w.2 a).toNat < Uniform.cut config.scoreRoll.size) ∧
          ∃ hero, roll raceId config ((w.1 :: Ability.all.map w.2) ++ₛ rest) =
              some (.ok hero, rest) ∧
            hero.race.kind = kind ∧ ∀ a, hero.base.score a = score a}.ncard =
          2 ^ 32 / 3 * (2 ^ 32 / config.scoreRoll.size) ^ 6) ∧
    ∀ x y, Draw.Padded ((0, 2) :: List.replicate 6 config.scoreRoll.bounds) x y →
      roll raceId config y = roll raceId config x := by
  refine ⟨fun σ _ hsource s => (roll_words hsource hid hrange s).symm,
    fun kind hkind score hscore rest => ncard_roll hid hrange hkind hscore rest,
    fun x y hpadded => ?_⟩
  have hranges : ∀ r ∈ (0, 2) :: List.replicate 6 config.scoreRoll.bounds, r.1 < r.2 := by
    simpa using ScoreRange.bounds_lt hrange
  have hle : config.scoreRoll.min ≤ config.scoreRoll.max := UInt8.le_of_lt hrange
  rw [roll_eq_series hle (.inl hid), Draw.map_apply, Draw.map_apply, ranges, if_pos hid,
    List.singleton_append, hpadded.series_eq hranges]

/-- A high elf with a score of 18 six times, rolled with the standard configuration. -/
theorem roll_standard_high_elf :
    (-1 : Int32) < 0 ∧ Config.standard.scoreRoll.min < Config.standard.scoreRoll.max ∧
    (roll (-1) Config.standard (Pcg.mk 7)).map (Prod.map id RandomSource.words) =
      roll (-1) Config.standard (RandomSource.words (Pcg.mk 7)) ∧
    {w : UInt32 × (Ability → UInt32) |
      (w.1.toNat < 4294967295 ∧ ∀ a, (w.2 a).toNat < 4294967292) ∧
      ∃ hero, roll (-1) Config.standard ((w.1 :: Ability.all.map w.2) ++ₛ Stream'.const 0) =
          some (.ok hero, Stream'.const 0) ∧
        hero.race.kind = .highElf ∧ ∀ a, hero.base.score a = 18}.ncard =
      1431655765 * 390451572 ^ 6 ∧
    roll (-1) Config.standard ((Stream'.const 0).cons (4294967295 : UInt32)) =
      roll (-1) Config.standard (Stream'.const (0 : UInt32)) := by
  obtain ⟨hwords, hcount, hpadded⟩ :=
    roll_uniform (-1) Config.standard (by decide) (by decide)
  refine ⟨by decide, by decide, hwords Pcg (fun _ _ _ => rfl) _, ?_, ?_⟩
  · exact hcount .highElf (by decide) (fun _ => 18) (fun _ => by decide) (Stream'.const 0)
  · exact hpadded _ _ (.gap (by decide +kernel) (.refl _ _))

end Character
end CharacterSheet
