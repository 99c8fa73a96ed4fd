import CharacterSheet.Proofs.Race.Bonus
import CharacterSheet.Proofs.Workshop.Origin
import CharacterSheet.Random.Script

/-!
What holds of races and characters after any run of actions. A race carries the bonuses of its kind,
and a character is the composition of its race with the sheet that it was built from; nothing that
is done later changes either of them.
-/
namespace CharacterSheet

variable {σ : Type}

/-- A selected race carries the bonuses of its kind. -/
lemma Race.eq_ofKind_of_select [RandomSource σ] {id : Int32} {s t : σ} {race : Race}
    (h : (Race.select id).run s = some (some race, t)) : race = .ofKind race.kind := by
  by_cases hid : id < 0
  · rw [Race.select_of_neg hid, StateT.run, Draw.map_apply] at h
    obtain ⟨⟨place, u⟩, -, heq⟩ := Option.map_eq_some_iff.mp h
    cases heq
    rfl
  · rw [Race.select_of_nonneg hid] at h
    cases hkind : RaceKind.ofId? id with
    | none =>
      rw [hkind] at h
      cases h
    | some kind =>
      rw [hkind] at h
      cases h
      rfl

namespace Workshop

/-- Every race carries the bonuses of its kind, and every character is composed of its parts. -/
structure Sound (w : Workshop σ) : Prop where
  races : ∀ name race, w.races.get? name = some race → race = .ofKind race.kind
  heroes : ∀ name hero, w.heroes.get? name = some hero →
    hero = .ofParts (.ofKind hero.race.kind) hero.base

lemma sound_start (source : σ) : (start source).Sound where
  races _ _ h := nomatch h
  heroes _ _ h := nomatch h

variable [RandomSource σ] {w after : Workshop σ} {action : Action σ} {answer : Reply × Workshop σ}

lemma StoresRace.sound {target : String} {race : Race} (hw : w.Sound)
    (h : w.StoresRace action target race) : race = .ofKind race.kind := by
  cases h with
  | made => rfl
  | copied hrace => exact hw.races _ race hrace
  | selected hselect => exact Race.eq_ofKind_of_select hselect
  | ofHero hhero => exact congrArg Character.race (hw.heroes _ _ hhero)

lemma Builds.sound {target : String} {race : Race} {base : Sheet} (hw : w.Sound)
    (h : w.Builds action target race base) : race = .ofKind race.kind := by
  cases h with
  | made => rfl
  | combined hrace => exact hw.races _ race hrace
  | rolled _ hselect => exact Race.eq_ofKind_of_select hselect

lemma StoresHero.sound {target : String} {hero : Character} (hw : w.Sound)
    (h : w.StoresHero action target hero) : hero = .ofParts (.ofKind hero.race.kind) hero.base := by
  cases h with
  | @built _ _ race base hbuilds =>
    have hrace := hbuilds.sound hw
    exact congrArg (Character.ofParts · base) hrace
  | copied hhero => exact hw.heroes _ hero hhero

/-- One action keeps every race and every character composed. -/
lemma Effect.sound (hw : w.Sound) (h : Effect w action answer) : answer.2.Sound := by
  cases h with
  | none _ races heroes => exact ⟨races ▸ hw.races, heroes ▸ hw.heroes⟩
  | @race target race stores races heroes =>
    refine ⟨fun name found hfound => ?_, heroes ▸ hw.heroes⟩
    rw [races, Registers.get?_put] at hfound
    split at hfound
    · cases hfound
      exact stores.sound hw
    · exact hw.races name found hfound
  | @hero target hero stores _ races heroes =>
    refine ⟨races ▸ hw.races, fun name found hfound => ?_⟩
    rw [heroes, Registers.get?_put] at hfound
    split at hfound
    · cases hfound
      exact stores.sound hw
    · exact hw.heroes name found hfound

lemma Reaches.sound {actions : List (Action σ)} (hw : w.Sound) (h : w.Reaches actions after) :
    after.Sound := by
  induction actions generalizing w with
  | nil =>
    rw [reaches_nil_iff] at h
    exact h ▸ hw
  | cons action actions ih =>
    obtain ⟨reply, mid, hfirst, hrest⟩ := reaches_cons_iff.mp h
    exact ih ((effect_of_perform hfirst).sound hw) hrest

lemma Reaches.get?_races {actions : List (Action σ)} (h : w.Reaches actions after) {name : String}
    (hname : ∀ action ∈ actions, action.raceTarget? ≠ some name) :
    after.races.get? name = w.races.get? name := by
  induction actions generalizing w with
  | nil =>
    rw [reaches_nil_iff] at h
    rw [h]
  | cons action actions ih =>
    obtain ⟨reply, mid, hfirst, hrest⟩ := reaches_cons_iff.mp h
    rw [ih hrest fun later hlater => hname later (List.mem_cons_of_mem _ hlater)]
    exact (effect_of_perform hfirst).get?_races (hname action List.mem_cons_self)

/-- After any run every race carries the bonuses of its kind, and every character is its base with
those bonuses added. Its race and its base are those that the last action to store under its name
built it from, as they were at that moment, through any number of copies; conversely, what was built
last under a name is found there, and an action that has a race or a character to store does store
it. Only an action that stores under the same name replaces a race or a character, and an action
that fails changes nothing at all. -/
theorem composed_after_every_run {source : σ} {actions : List (Action σ)}
    (run : (start source).Reaches actions w) :
    (∀ name race, w.races.get? name = some race →
      race.bonus = (Race.ofKind race.kind).bonus ∧ race.bonus.proficiencyBonus = 0 ∧
        ∀ a, race.bonus.isProficient a = false) ∧
    (∀ name hero, w.heroes.get? name = some hero →
      hero.race = .ofKind hero.race.kind ∧ hero.scores = hero.base + hero.race.bonus ∧
      (∀ a, (hero.scores.score a).toNat =
          min ((hero.base.score a).toNat + hero.race.kind.delta a) 255 ∧
        hero.scores.isProficient a = hero.base.isProficient a) ∧
      hero.scores.proficiencyBonus = hero.base.proficiencyBonus ∧
      (start source).BuiltFrom actions name hero.race hero.base) ∧
    (∀ name race base, (start source).BuiltFrom actions name race base →
      w.heroes.get? name = some (.ofParts race base)) ∧
    (∀ action name race, w.StoresRace action name race →
      ∃ after, w.perform action = some (.race (some race), after) ∧
        after.races.get? name = some race) ∧
    (∀ action name hero, w.StoresHero action name hero →
      ∃ after, w.perform action = some (.hero hero, after) ∧
        after.heroes.get? name = some hero) ∧
    (∀ more after, w.Reaches more after → ∀ name,
      ((∀ action ∈ more, action.raceTarget? ≠ some name) →
        after.races.get? name = w.races.get? name) ∧
      ((∀ action ∈ more, action.heroTarget? ≠ some name) →
        after.heroes.get? name = w.heroes.get? name)) ∧
    (∀ action reply after, w.perform action = some (reply, after) → reply.isRefusal →
      after = w) := by
  have hsound := run.sound (sound_start source)
  refine ⟨fun name race hrace => ?_, fun name hero hhero => ?_, fun name race base hbuilt =>
      hbuilt.get?_heroes run, fun action name race hstores => ?_,
    fun action name hero hstores => ?_, fun more after hmore name =>
      ⟨fun hname => hmore.get?_races hname, fun hname => (hmore.passes hname).get?_heroes⟩,
    fun action reply after h => spares_of_perform h⟩
  · rw [hsound.races name race hrace]
    exact ⟨rfl, RaceKind.proficiencyBonus_bonusSheet _, RaceKind.isProficient_bonusSheet _⟩
  · have hparts := hsound.heroes name hero hhero
    have hrace : hero.race = .ofKind hero.race.kind := congrArg Character.race hparts
    have hscores : hero.scores = (Race.ofKind hero.race.kind).applyTo hero.base :=
      congrArg Character.scores hparts
    refine ⟨hrace, ?_, fun a => ⟨?_, ?_⟩, ?_, run.builtFrom (fun _ => rfl) hhero⟩
    · rw [hrace]
      exact hscores
    · rw [hscores, Race.toNat_score_applyTo]
    · rw [hscores, Race.isProficient_applyTo]
    · rw [hscores, Race.proficiencyBonus_applyTo]
  · obtain ⟨rest, hperform⟩ := hstores.perform_eq
    exact ⟨_, hperform, (Registers.get?_put _ _ _ _).trans (if_pos rfl)⟩
  · obtain ⟨rest, hperform⟩ := hstores.perform_eq
    exact ⟨_, hperform, (Registers.get?_put _ _ _ _).trans (if_pos rfl)⟩

/-- A base that is changed after a character is built from it, and a roll that fails. -/
theorem composed_after_edit_and_failure :
    let actions : List (Action Script) := [.newSheet "base" (.uniform 10),
      .newHero "borin" .hillDwarf "base", .editSheet "base" (.setScore .constitution 250),
      .newRace "kin" .dwarf, .combineHero "dain" "kin" "base", .rollHero "borin" 99]
    ∃ w, (start (Script.ofList [3, 15])).Reaches actions w ∧
      ∃ borin dain, w.heroes.get? "borin" = some borin ∧ w.heroes.get? "dain" = some dain ∧
        (start (Script.ofList [3, 15])).BuiltFrom actions "borin" borin.race borin.base ∧
        borin.base = .uniform 10 ∧ borin.scores = borin.base + borin.race.bonus ∧
        borin.scores.score .constitution = 12 ∧
        (start (Script.ofList [3, 15])).BuiltFrom actions "dain" dain.race dain.base ∧
        dain.base = (Sheet.uniform 10).setScore .constitution 250 ∧
        dain.scores = dain.base + dain.race.bonus ∧ dain.scores.score .constitution = 252 := by
  intro actions
  have run : (start (Script.ofList [3, 15])).Reaches actions _ := ⟨_, rfl⟩
  obtain ⟨-, composed, -⟩ := composed_after_every_run run
  obtain ⟨-, hborin, -, -, borin⟩ := composed "borin" _ rfl
  obtain ⟨-, hdain, -, -, dain⟩ := composed "dain" _ rfl
  exact ⟨_, run, _, _, rfl, rfl, borin, rfl, hborin, by decide +kernel, dain, rfl, hdain,
    by decide +kernel⟩

end Workshop
end CharacterSheet
