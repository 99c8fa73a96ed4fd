import CharacterSheet.Proofs.Character.Roll
import CharacterSheet.Proofs.Random.Replay
import CharacterSheet.Proofs.Random.View

/-!
Characters rolled from a script. A script that lists what each of a number of characters needs keeps
in step with the rolls, over any number of rounds: no value is passed over or used twice, and rolls
that fail in between leave it alone.
-/
namespace CharacterSheet

/-! ### Values due -/

namespace Script

/-- The values that come next in a script, after a number of them have been taken. -/
def Offers (values : List Int32) (taken : ℕ) (due : List Int32) : Prop :=
  ∀ i value, due[i]? = some value → values[(taken + i) % values.length]? = some value

lemma Offers.cons {values due : List Int32} {value : Int32} {k : ℕ}
    (h : Offers values k (value :: due)) :
    values[k % values.length]? = some value ∧ Offers values (k + 1) due := by
  refine ⟨h 0 value rfl, fun i next hi => ?_⟩
  rw [Nat.add_assoc, Nat.add_comm 1]
  exact h (i + 1) next hi

lemma offers_append {values xs ys : List Int32} {k : ℕ} :
    Offers values k (xs ++ ys) ↔ Offers values k xs ∧ Offers values (k + xs.length) ys := by
  constructor
  · intro h
    constructor
    · intro i value hi
      obtain ⟨hlt, -⟩ := List.getElem?_eq_some_iff.mp hi
      exact h i value (by rwa [List.getElem?_append_left hlt])
    · intro i value hi
      rw [Nat.add_assoc]
      apply h
      rwa [List.getElem?_append_right (by omega), Nat.add_sub_cancel_left]
  · rintro ⟨hxs, hys⟩ i value hi
    by_cases hlt : i < xs.length
    · exact hxs i value (by rwa [List.getElem?_append_left hlt] at hi)
    · rw [List.getElem?_append_right (by omega)] at hi
      have := hys _ value hi
      rwa [show k + xs.length + (i - xs.length) = k + i by omega] at this

/-- A script goes on with its own values, round after round. -/
lemma offers_rounds (values : List Int32) (rounds : ℕ) {k : ℕ} (hk : values.length ∣ k) :
    Offers values k (List.replicate rounds values).flatten := by
  induction rounds generalizing k with
  | zero =>
    intro i value h
    simp at h
  | succ rounds ih =>
    rw [List.replicate_succ, List.flatten_cons, offers_append]
    refine ⟨fun i value hi => ?_, ih (Nat.dvd_add hk (Nat.dvd_refl _))⟩
    obtain ⟨hlt, -⟩ := List.getElem?_eq_some_iff.mp hi
    obtain ⟨n, rfl⟩ := hk
    rwa [Nat.mul_add_mod, Nat.mod_eq_of_lt hlt]

lemma clamp_of_mem {lo hi value : Int32} (hlo : lo ≤ value) (hhi : value ≤ hi) :
    clamp lo hi value = value := by
  rw [clamp, if_neg (Int32.not_lt.mpr hlo), if_neg (Int32.not_lt.mpr hhi)]

/-- A value that is due and lies in the range asked for is given as it is. -/
lemma int_after {values : List Int32} {value lo hi : Int32} {k : ℕ} (hk : k < 2 ^ 64)
    (hdue : values[k % values.length]? = some value) (hlt : lo < hi) (hlo : lo ≤ value)
    (hhi : value ≤ hi) : int lo hi (after values k) = (value, after values (k + 1)) := by
  have hne : values ≠ [] := by
    rintro rfl
    simp at hdue
  obtain ⟨due, hsame, htake⟩ := take?_after hne hk
  rw [hdue] at hsame
  cases hsame
  rw [int, if_neg (Int32.not_le.mpr hlt), htake]
  simp only [clamp_of_mem hlo hhi]

/-- A series of draws takes the values that come next, if each lies in its range. -/
lemma series_after {values drawn : List Int32} {ranges : List (Int32 × Int32)}
    (hdrawn : List.Forall₂ (fun r v => r.1 < r.2 ∧ r.1 ≤ v ∧ v ≤ r.2) ranges drawn) {k : ℕ}
    (hoffers : Offers values k drawn) (hk : k + drawn.length < 2 ^ 64) :
    Draw.series ranges (after values k) = some (drawn, after values (k + drawn.length)) := by
  induction hdrawn generalizing k with
  | nil => rfl
  | @cons range value ranges drawn hrange _ ih =>
    obtain ⟨lo, hi⟩ := range
    obtain ⟨hlt, hlo, hhi⟩ := hrange
    obtain ⟨hdue, hrest⟩ := hoffers.cons
    rw [List.length_cons, Nat.add_comm _ 1, ← Nat.add_assoc] at hk ⊢
    have hint : RandomSource.randomInt lo hi (after values k) =
        some (value, after values (k + 1)) :=
      congrArg some (int_after (by omega) hdue hlt hlo hhi)
    rw [Draw.series_cons, hint, Option.bind_some]
    simp only [ih hrest hk, Option.map_some]

end Script

/-- The integer that a request was answered. -/
def Request.drawn : Request → Int32
  | word answer => answer.toInt32
  | int _ _ answer => answer

lemma Draw.map_drawn_answered {ranges : List (Int32 × Int32)} {values : List Int32}
    (h : ranges.length = values.length) :
    (answered ranges values).map Request.drawn = values := by
  rw [answered, List.map_zipWith]
  calc List.zipWith (fun _ v => v) ranges values
      = (List.zip ranges values).map Prod.snd := by rw [List.zip_eq_zipWith, List.map_zipWith]
    _ = values := List.map_snd_zip (Nat.le_of_eq h.symm)

/-! ### Wishes -/

/-- A race to be had from a script: by a negative number and a place in the pool, or by the number
of the race. -/
inductive RaceWish where
  | drawn (raceId : Int32) (hneg : raceId < 0) (place : Fin RaceKind.randomPool.length)
  | numbered (kind : RaceKind)

namespace RaceWish

def raceId : RaceWish → Int32
  | drawn raceId _ _ => raceId
  | numbered kind => kind.id

def kind : RaceWish → RaceKind
  | drawn _ _ place => RaceKind.randomPool.get place
  | numbered kind => kind

/-- What a script must hold for the race. -/
def script : RaceWish → List Int32
  | drawn _ _ place => [Int32.ofNat place]
  | numbered _ => []

end RaceWish

/-- A race and six scores within a range. -/
structure Wish (range : ScoreRange) where
  race : RaceWish
  score : Ability → UInt8
  inRange : ∀ a, range.min ≤ score a ∧ score a ≤ range.max

namespace Wish

variable {range : ScoreRange}

/-- What a script must hold for the character: the place of a race that is drawn, and the scores. -/
def script (w : Wish range) : List Int32 :=
  w.race.script ++ Ability.all.map fun a => Int32.ofNat (w.score a).toNat

/-- The character wished for. -/
def hero {config : Config} (w : Wish config.scoreRoll) : Character :=
  .ofParts (.ofKind w.race.kind)
    (.tabulate config.proficiencyBonus fun a => ⟨w.score a, false⟩)

lemma ofPool_ofNat (place : Fin RaceKind.randomPool.length) :
    RaceKind.ofPool (Int32.ofNat place) = RaceKind.randomPool.get place := by
  decide +revert

lemma scoreOr_ofNat (fallback score : UInt8) :
    scoreOr fallback (Int32.ofNat score.toNat) = score := by
  have hlt := score.toNat_lt
  have hscore := toNat_scoreOr fallback (Int32.ofNat score.toNat)
  rw [ScoreRange.toInt_ofNat, if_pos (by omega)] at hscore
  rw [← UInt8.toNat_inj]
  omega

/-- What the script holds for a wish is drawn for it. -/
lemma ofDrawn_script {config : Config} (w : Wish config.scoreRoll) :
    Character.ofDrawn w.race.raceId config w.script = w.hero := by
  have hrace : Character.kindOfDrawn w.race.raceId w.script = w.race.kind := by
    rw [script]
    cases w.race with
    | drawn raceId hneg place =>
      exact (Character.kindOfDrawn_of_neg hneg _ _).trans (ofPool_ofNat place)
    | numbered kind =>
      rw [Character.kindOfDrawn, RaceWish.raceId, if_neg (RaceKind.not_id_neg kind),
        RaceKind.ofId?_id]
      rfl
  have hscores : Character.scoresDrawn w.race.raceId w.script =
      Ability.all.map fun a => Int32.ofNat (w.score a).toNat := by
    rw [script]
    cases w.race with
    | drawn raceId hneg place => exact Character.scoresDrawn_of_neg hneg _ _
    | numbered kind => exact if_neg (RaceKind.not_id_neg kind)
  rw [Character.ofDrawn, hrace, hscores, hero, Sheet.ofDrawn]
  simp only [Ability.getD_map_all, scoreOr_ofNat]

lemma ofNat_le_ofNat {m n : UInt8} (h : m ≤ n) :
    Int32.ofNat m.toNat ≤ Int32.ofNat n.toNat := by
  rw [Int32.le_iff_toInt_le, ScoreRange.toInt_ofNat, ScoreRange.toInt_ofNat]
  exact Int.ofNat_le.mpr (UInt8.le_iff_toNat_le.mp h)

/-- What the script holds for a wish lies in the ranges that its roll draws from. -/
lemma forall₂_script (h : range.min < range.max) (w : Wish range) :
    List.Forall₂ (fun r v => r.1 < r.2 ∧ r.1 ≤ v ∧ v ≤ r.2)
      (Character.ranges w.race.raceId range) w.script := by
  rw [Character.ranges, script]
  apply List.rel_append
  · cases w.race with
    | drawn raceId hneg place =>
      rw [RaceWish.raceId, if_pos hneg]
      exact .cons (by decide +revert) .nil
    | numbered kind =>
      rw [RaceWish.raceId, if_neg (RaceKind.not_id_neg kind)]
      exact .nil
  · have hsix : List.replicate 6 range.bounds = Ability.all.map fun _ => range.bounds := rfl
    rw [hsix, List.forall₂_map_left_iff, List.forall₂_map_right_iff, List.forall₂_same]
    intro a _
    obtain ⟨hlo, hhi⟩ := w.inRange a
    exact ⟨ScoreRange.bounds_lt h, ofNat_le_ofNat hlo, ofNat_le_ofNat hhi⟩

end Wish

/-! ### Runs -/

namespace Character

variable {σ : Type} [RandomSource σ]

/-- Rolls one character after another, each by its own number and configuration. -/
def rollAll : List (Int32 × Config) → Draw σ (List (Except CharacterError Character))
  | [] => pure []
  | (raceId, config) :: orders => do
    let first ← roll raceId config
    let others ← rollAll orders
    pure (first :: others)

lemma rollAll_cons (raceId : Int32) (config : Config) (orders : List (Int32 × Config)) (s : σ) :
    rollAll ((raceId, config) :: orders) s = (roll raceId config s).bind fun (first, t) =>
      (rollAll orders t).map fun (others, u) => (first :: others, u) := by
  rw [rollAll, Draw.bind_apply]
  refine congrArg _ (funext fun ⟨first, t⟩ => ?_)
  dsimp only
  rw [Draw.bind_apply]
  cases rollAll orders t <;> rfl

lemma carries_rollAll {τ : Type} [RandomSource τ] (v : View τ σ)
    (orders : List (Int32 × Config)) : v.Carries (rollAll orders) (rollAll orders) := by
  induction orders with
  | nil => exact v.carries_pure []
  | cons order orders ih =>
    exact (v.carries_character _ _).bind fun first => ih.bind fun others => v.carries_pure _

/-- Keeping a record changes nothing in a run of rolls. -/
lemma rollAll_recorded (orders : List (Int32 × Config)) (s : Recorded σ) :
    (rollAll orders s).map (Prod.map id Recorded.inner) = rollAll orders s.inner :=
  (carries_rollAll View.ofRecorded orders s).symm

end Character

/-- One roll of a run: for a character wished for, or one that is bound to fail. -/
inductive Attempt (range : ScoreRange) where
  | wished (wish : Wish range)
  | emptyRange (raceId : Int32) (config : Config)
      (h : config.scoreRoll.max < config.scoreRoll.min)
  | unknownRace (raceId : Int32) (config : Config)
      (hrange : config.scoreRoll.min ≤ config.scoreRoll.max) (hnonneg : 0 ≤ raceId)
      (hid : raceId ∉ ([0, 1, 2, 3, 4] : List Int32))

namespace Attempt

def wish? {range : ScoreRange} : Attempt range → Option (Wish range)
  | wished wish => some wish
  | emptyRange _ _ _ => none
  | unknownRace _ _ _ _ _ => none

variable (config : Config)

/-- The number and the configuration that an attempt rolls with. -/
def order : Attempt config.scoreRoll → Int32 × Config
  | wished wish => (wish.race.raceId, config)
  | emptyRange raceId other _ => (raceId, other)
  | unknownRace raceId other _ _ _ => (raceId, other)

def reply : Attempt config.scoreRoll → Except CharacterError Character
  | wished wish => .ok wish.hero
  | emptyRange _ other _ => .error (.config (.invalidScoreRange other.scoreRoll))
  | unknownRace raceId _ _ _ _ => .error (.unknownRace raceId)

/-- What the script holds for an attempt. -/
def script {range : ScoreRange} : Attempt range → List Int32
  | wished wish => wish.script
  | emptyRange _ _ _ => []
  | unknownRace _ _ _ _ _ => []

/-- The draws that an attempt makes, each answered with its own value. -/
def requests {range : ScoreRange} : Attempt range → List Request
  | wished wish => Draw.answered (Character.ranges wish.race.raceId range) wish.script
  | emptyRange _ _ _ => []
  | unknownRace _ _ _ _ _ => []

variable {config} (hrange : config.scoreRoll.min < config.scoreRoll.max) {values : List Int32}
include hrange

/-- One attempt takes from the script what the script holds for it. -/
lemma roll_after (attempt : Attempt config.scoreRoll) {k : ℕ}
    (hoffers : Script.Offers values k attempt.script) (hk : k + attempt.script.length < 2 ^ 64)
    (record : List Request) :
    Character.roll (attempt.order config).1 (attempt.order config).2
        (⟨Script.after values k, record⟩ : Recorded Script) =
      some (attempt.reply config,
        ⟨Script.after values (k + attempt.script.length), record ++ attempt.requests⟩) := by
  cases attempt with
  | wished wish =>
    have hseries : Draw.series (Character.ranges wish.race.raceId config.scoreRoll)
        (⟨Script.after values k, record⟩ : Recorded Script) = some (wish.script,
          ⟨Script.after values (k + wish.script.length), record ++ (wished wish).requests⟩) := by
      rw [Draw.series_recorded, Script.series_after (wish.forall₂_script hrange) hoffers hk]
      rfl
    have hid : wish.race.raceId < 0 ∨ (RaceKind.ofId? wish.race.raceId).isSome := by
      cases wish.race with
      | drawn raceId hneg place => exact .inl hneg
      | numbered kind => exact .inr (by rw [RaceWish.raceId, RaceKind.ofId?_id]; rfl)
    have hroll := Character.roll_of_series (UInt8.le_of_lt hrange) hid hseries
    rwa [wish.ofDrawn_script] at hroll
  | emptyRange raceId other h =>
    rw [requests, List.append_nil]
    exact Character.roll_of_empty_range h raceId _
  | unknownRace raceId other hproper hnonneg hid =>
    rw [requests, List.append_nil]
    refine Character.roll_of_unknown_race hproper (Int32.not_lt.mpr hnonneg) ?_ _
    rwa [← Option.not_isSome_iff_eq_none, Character.isSome_ofId?_iff]

/-- A run takes from the script what the script holds for its attempts, one after another. -/
lemma rollAll_after (attempts : List (Attempt config.scoreRoll)) {k : ℕ}
    (hoffers : Script.Offers values k (attempts.flatMap script))
    (hk : k + (attempts.flatMap script).length < 2 ^ 64) (record : List Request) :
    Character.rollAll (attempts.map (order config))
        (⟨Script.after values k, record⟩ : Recorded Script) =
      some (attempts.map (reply config),
        ⟨Script.after values (k + (attempts.flatMap script).length),
          record ++ attempts.flatMap requests⟩) := by
  induction attempts generalizing k record with
  | nil => simp [Character.rollAll]; rfl
  | cons attempt attempts ih =>
    rw [List.flatMap_cons, Script.offers_append] at hoffers
    rw [List.flatMap_cons, List.length_append, ← Nat.add_assoc] at hk ⊢
    have hfirst := roll_after hrange attempt hoffers.1 (by omega) record
    have hothers := ih hoffers.2 hk (record ++ attempt.requests)
    rw [List.map_cons, Character.rollAll_cons, hfirst, Option.bind_some]
    simp only [hothers, Option.map_some, List.map_cons, List.flatMap_cons, List.append_assoc]

omit hrange in
lemma flatMap_script (attempts : List (Attempt config.scoreRoll)) :
    attempts.flatMap script = (attempts.filterMap wish?).flatMap Wish.script := by
  induction attempts with
  | nil => rfl
  | cons attempt attempts ih =>
    rw [List.flatMap_cons, ih]
    cases attempt <;> rfl

lemma map_drawn_requests (attempt : Attempt config.scoreRoll) :
    attempt.requests.map Request.drawn = attempt.script := by
  cases attempt with
  | wished wish => exact Draw.map_drawn_answered (wish.forall₂_script hrange).length_eq
  | emptyRange raceId other h => rfl
  | unknownRace raceId other hproper hnonneg hid => rfl

end Attempt

namespace Character

/-- A script that lists what a number of characters need keeps in step with any number of rounds of
rolls for them, whatever fails in between. Every number from 0 to 4 can be wished for. The rolls
give the characters wished for, and the failures, in order, and what they draw is the script itself,
once in every round. -/
theorem rolls_keep_in_step (config : Config) (hrange : config.scoreRoll.min < config.scoreRoll.max)
    (wishes : List (Wish config.scoreRoll)) (rounds : ℕ)
    (hshort : rounds * (wishes.flatMap Wish.script).length < 2 ^ 64)
    (attempts : List (Attempt config.scoreRoll))
    (hwishes : attempts.filterMap Attempt.wish? = (List.replicate rounds wishes).flatten) :
    (∀ raceId ∈ ([0, 1, 2, 3, 4] : List Int32), ∃ kind, (RaceWish.numbered kind).raceId = raceId) ∧
    rollAll (attempts.map (Attempt.order config)) (Script.ofList (wishes.flatMap Wish.script)) =
      some (attempts.map (Attempt.reply config), Script.after (wishes.flatMap Wish.script)
        (rounds * (wishes.flatMap Wish.script).length)) ∧
    ∃ record, rollAll (attempts.map (Attempt.order config))
        (Recorded.start (Script.ofList (wishes.flatMap Wish.script))) =
      some (attempts.map (Attempt.reply config), ⟨Script.after (wishes.flatMap Wish.script)
        (rounds * (wishes.flatMap Wish.script).length), record⟩) ∧
      record.map Request.drawn =
        (List.replicate rounds (wishes.flatMap Wish.script)).flatten := by
  have hscript : attempts.flatMap Attempt.script =
      (List.replicate rounds (wishes.flatMap Wish.script)).flatten := by
    rw [Attempt.flatMap_script, hwishes, List.flatten_eq_flatMap, List.flatMap_assoc,
      List.flatMap_replicate]
    rfl
  have hlength : (attempts.flatMap Attempt.script).length =
      rounds * (wishes.flatMap Wish.script).length := by
    rw [hscript, List.length_flatten, List.map_replicate, List.sum_replicate_nat]
  have hoffers : Script.Offers (wishes.flatMap Wish.script) 0
      (attempts.flatMap Attempt.script) := by
    rw [hscript]
    exact Script.offers_rounds _ rounds (Nat.dvd_zero _)
  have hrun := Attempt.rollAll_after hrange attempts hoffers (by omega) []
  rw [Script.after_zero, Nat.zero_add, hlength, List.nil_append] at hrun
  refine ⟨fun raceId hid => ?_, ?_, _, hrun, ?_⟩
  · rw [← isSome_ofId?_iff, Option.isSome_iff_exists] at hid
    obtain ⟨kind, hkind⟩ := hid
    exact ⟨kind, RaceKind.ofId?_eq_some_iff.mp hkind⟩
  · have hplain := rollAll_recorded (attempts.map (Attempt.order config))
      (Recorded.start (Script.ofList (wishes.flatMap Wish.script)))
    rw [Recorded.start, hrun] at hplain
    exact hplain.symm
  · rw [← hscript, List.map_flatMap]
    simp only [Attempt.map_drawn_requests hrange]

/-- A high elf drawn from the pool and an elf asked for by number, twice, with failures between. -/
theorem two_rounds_with_failures_between :
    Config.standard.scoreRoll.min < Config.standard.scoreRoll.max ∧ 2 * 13 < 2 ^ 64 ∧
    rollAll [(-7, Config.standard), (42, Config.standard), (4, Config.standard),
        (-7, ⟨⟨12, 4⟩, 2⟩), (-7, Config.standard), (4, Config.standard)]
        (Script.ofList [2, 18, 18, 18, 18, 18, 18, 8, 9, 10, 11, 12, 13]) =
      some ([.ok (.ofParts (.ofKind .highElf) (.tabulate 2 fun _ => ⟨18, false⟩)),
        .error (.unknownRace 42),
        .ok (.ofParts (.ofKind .elf)
          (.tabulate 2 fun a => ⟨8 + UInt8.ofNat a.index, false⟩)),
        .error (.config (.invalidScoreRange ⟨12, 4⟩)),
        .ok (.ofParts (.ofKind .highElf) (.tabulate 2 fun _ => ⟨18, false⟩)),
        .ok (.ofParts (.ofKind .elf)
          (.tabulate 2 fun a => ⟨8 + UInt8.ofNat a.index, false⟩))],
        Script.after [2, 18, 18, 18, 18, 18, 18, 8, 9, 10, 11, 12, 13] 26) := by
  let first : Wish Config.standard.scoreRoll :=
    ⟨.drawn (-7) (by decide) ⟨2, by decide⟩, fun _ => 18, fun _ => by decide⟩
  let second : Wish Config.standard.scoreRoll :=
    ⟨.numbered .elf, fun a => 8 + UInt8.ofNat a.index, fun a => by cases a <;> decide⟩
  obtain ⟨-, hrun, -⟩ := rolls_keep_in_step Config.standard (by decide) [first, second] 2
    (by decide) [.wished first, .unknownRace 42 Config.standard (by decide) (by decide) (by decide),
      .wished second, .emptyRange (-7) ⟨⟨12, 4⟩, 2⟩ (by decide), .wished first, .wished second] rfl
  exact ⟨by decide, by decide, hrun⟩

end Character
end CharacterSheet
