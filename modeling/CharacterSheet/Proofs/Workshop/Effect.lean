import CharacterSheet.Proofs.Character.Roll
import CharacterSheet.Workshop.Basic

/-!
What one action does to the races and characters of a workshop. Most actions leave them as they are;
every other action stores one race or one character under the name that it is given, and says where
that one comes from. An action that is refused changes nothing at all.
-/
namespace CharacterSheet

namespace Workshop

variable {σ : Type}

namespace Action

/-- The name under which an action may store a race. -/
def raceTarget? : Action σ → Option String
  | newRace target _ => some target
  | copyRace target _ => some target
  | selectRace target _ => target
  | heroRace target _ => some target
  | _ => none

/-- The name under which an action may store a character. -/
def heroTarget? : Action σ → Option String
  | newHero target _ _ => some target
  | combineHero target _ _ => some target
  | rollHero target _ => some target
  | copyHero target _ => some target
  | _ => none

end Action

/-- An answer that leaves the races and the characters of a workshop as they are. -/
def Keeps (w : Workshop σ) (answer : Reply × Workshop σ) : Prop :=
  answer.2.races = w.races ∧ answer.2.heroes = w.heroes

section Keeps

variable {α : Type} {w : Workshop σ} {answer : Reply × Workshop σ}

lemma keeps_reading {found : Option α} {use : α → Reply × Workshop σ} (h : ∀ a, w.Keeps (use a)) :
    w.Keeps (w.reading found use) := by
  cases found with
  | none => exact ⟨rfl, rfl⟩
  | some a => exact h a

lemma exists_of_drawing {draw : Draw σ α} {use : Workshop σ → α → Reply × Workshop σ}
    (h : w.drawing draw use = some answer) :
    ∃ a source, draw.run w.source = some (a, source) ∧ answer = use { w with source } a := by
  obtain ⟨⟨a, source⟩, hdraw, rfl⟩ := Option.map_eq_some_iff.mp h
  exact ⟨a, source, hdraw, rfl⟩

lemma keeps_of_drawing {draw : Draw σ α} {use : Workshop σ → α → Reply × Workshop σ}
    (huse : ∀ source a, w.Keeps (use { w with source } a))
    (h : w.drawing draw use = some answer) : w.Keeps answer := by
  obtain ⟨a, source, -, rfl⟩ := exists_of_drawing h
  exact huse source a

lemma keeps_of_perform [RandomSource σ] {action : Action σ} (hrace : action.raceTarget? = none)
    (hhero : action.heroTarget? = none) (h : w.perform action = some answer) :
    w.Keeps answer := by
  cases action
  case newRace | copyRace | heroRace => simp [Action.raceTarget?] at hrace
  case newHero | combineHero | rollHero | copyHero => simp [Action.heroTarget?] at hhero
  case newEntry | setEntryScore | setEntryProficient | addEntry | saveEntry | newSheet | newSource |
      newConfig | setScoreRoll | setProficiencyBonus | containsScore =>
    cases h
    exact ⟨rfl, rfl⟩
  case copySheet | showSheet | readEntry | raceBonus | heroBase | heroScores =>
    cases h
    exact keeps_reading fun _ => ⟨rfl, rfl⟩
  case compareSheets | addSheets | addInto | applyRace | compareHeroes =>
    cases h
    exact keeps_reading fun _ => keeps_reading fun _ => ⟨rfl, rfl⟩
  case editSheet | lookupEntry | changeEntry =>
    cases h
    apply keeps_reading
    intro sheet
    split <;> exact ⟨rfl, rfl⟩
  case rollEntry | rollSheet | drawRaceId | drawWord | drawInts =>
    rw [perform] at h
    apply keeps_of_drawing _ h
    intro source drawn
    exact ⟨rfl, rfl⟩
  case selectRace target id =>
    cases hrace
    rw [perform] at h
    apply keeps_of_drawing _ h
    intro source race
    cases race <;> exact ⟨rfl, rfl⟩
  case decodeSheet | readConfig | validateConfig =>
    rw [perform] at h
    split at h <;> cases h <;> exact ⟨rfl, rfl⟩

end Keeps

section Spares

variable {w : Workshop σ} {answer : Reply × Workshop σ}

/-- An answer that reports that an action was not carried out. -/
def Reply.isRefusal : Reply → Bool
  | failed _ | notStored | notDecoded => true
  | _ => false

/-- A refused action leaves the workshop as it is. -/
def Spares (w : Workshop σ) (answer : Reply × Workshop σ) : Prop :=
  answer.1.isRefusal → answer.2 = w

lemma spares_of_carriedOut (h : answer.1.isRefusal = false) : w.Spares answer := by
  intro hrefused
  rw [h] at hrefused
  cases hrefused

lemma spares_reading {α : Type} {found : Option α} {use : α → Reply × Workshop σ}
    (h : ∀ a, w.Spares (use a)) : w.Spares (w.reading found use) := by
  cases found with
  | none => exact fun _ => rfl
  | some a => exact h a

end Spares

variable [RandomSource σ]

/-- Where a race comes from that an action stores under a name. -/
inductive StoresRace (w : Workshop σ) : Action σ → String → Race → Prop where
  | made (target : String) (kind : RaceKind) :
    StoresRace w (.newRace target kind) target (.ofKind kind)
  | copied {target origin : String} {race : Race} (hrace : w.races.get? origin = some race) :
    StoresRace w (.copyRace target origin) target race
  | selected {target : String} {id : Int32} {race : Race} {source : σ}
    (hselect : (Race.select id).run w.source = some (some race, source)) :
    StoresRace w (.selectRace (some target) id) target race
  | ofHero {target name : String} {hero : Character} (hhero : w.heroes.get? name = some hero) :
    StoresRace w (.heroRace target name) target hero.race

/-- The name under which an action stores a character that it builds, and the race and the sheet
that it builds the character from, as they are at that moment. -/
inductive Builds (w : Workshop σ) : Action σ → String → Race → Sheet → Prop where
  | made {target base : String} {kind : RaceKind} {sheet : Sheet}
    (hsheet : w.sheets.get? base = some sheet) :
    Builds w (.newHero target kind base) target (.ofKind kind) sheet
  | combined {target name base : String} {race : Race} {sheet : Sheet}
    (hrace : w.races.get? name = some race) (hsheet : w.sheets.get? base = some sheet) :
    Builds w (.combineHero target name base) target race sheet
  | rolled {target : String} {id : Int32} {race : Race} {sheet : Sheet} {selected rolled : σ}
    (hrange : w.config.scoreRoll.min ≤ w.config.scoreRoll.max)
    (hselect : (Race.select id).run w.source = some (some race, selected))
    (hroll : (Sheet.rollIn w.config.scoreRoll).run selected = some (sheet, rolled)) :
    Builds w (.rollHero target id) target race
      (sheet.setProficiencyBonus w.config.proficiencyBonus)

/-- Where a character comes from that an action stores under a name. -/
inductive StoresHero (w : Workshop σ) : Action σ → String → Character → Prop where
  | built {action : Action σ} {target : String} {race : Race} {base : Sheet}
    (hbuilds : w.Builds action target race base) :
    StoresHero w action target (.ofParts race base)
  | copied {target origin : String} {hero : Character} (hhero : w.heroes.get? origin = some hero) :
    StoresHero w (.copyHero target origin) target hero

/-- What an action may do to the races and the characters. One that could store a character and
stores none is refused. -/
inductive Effect (w : Workshop σ) (action : Action σ) (answer : Reply × Workshop σ) : Prop where
  | none (refused : action.heroTarget?.isSome → answer.1.isRefusal)
    (races : answer.2.races = w.races) (heroes : answer.2.heroes = w.heroes)
  | race {target : String} {race : Race} (stores : w.StoresRace action target race)
    (races : answer.2.races = w.races.put target race) (heroes : answer.2.heroes = w.heroes)
  | hero {target : String} {hero : Character} (stores : w.StoresHero action target hero)
    (reply : answer.1 = .hero hero) (races : answer.2.races = w.races)
    (heroes : answer.2.heroes = w.heroes.put target hero)

variable {w : Workshop σ} {action : Action σ} {answer : Reply × Workshop σ}

lemma Keeps.effect (hhero : action.heroTarget? = none) (h : w.Keeps answer) :
    Effect w action answer := by
  refine .none (fun hsome => ?_) h.1 h.2
  rw [hhero] at hsome
  cases hsome

/-- Every action keeps all races and characters, or stores a single one. -/
theorem effect_of_perform (h : w.perform action = some answer) : Effect w action answer := by
  cases action
  case newRace target kind =>
    cases h
    exact .race (.made target kind) rfl rfl
  case copyRace target origin =>
    cases h
    cases hrace : w.races.get? origin with
    | none => exact Keeps.effect rfl ⟨rfl, rfl⟩
    | some race => exact .race (.copied hrace) rfl rfl
  case selectRace target id =>
    rw [perform] at h
    obtain ⟨race, source, hselect, rfl⟩ := exists_of_drawing h
    cases race with
    | none => exact Keeps.effect rfl ⟨rfl, rfl⟩
    | some race =>
      cases target with
      | none => exact Keeps.effect rfl ⟨rfl, rfl⟩
      | some target => exact .race (.selected hselect) rfl rfl
  case heroRace target name =>
    cases h
    cases hhero : w.heroes.get? name with
    | none => exact Keeps.effect rfl ⟨rfl, rfl⟩
    | some hero => exact .race (.ofHero hhero) rfl rfl
  case newHero target kind base =>
    cases h
    cases hsheet : w.sheets.get? base with
    | none => exact .none (fun _ => rfl) rfl rfl
    | some sheet => exact .hero (.built (.made hsheet)) rfl rfl rfl
  case combineHero target name base =>
    cases h
    cases hrace : w.races.get? name with
    | none => exact .none (fun _ => rfl) rfl rfl
    | some race =>
      cases hsheet : w.sheets.get? base with
      | none => exact .none (fun _ => rfl) rfl rfl
      | some sheet => exact .hero (.built (.combined hrace hsheet)) rfl rfl rfl
  case rollHero target id =>
    rw [perform] at h
    obtain ⟨rolled, source, hroll, rfl⟩ := exists_of_drawing h
    cases rolled with
    | error error => exact .none (fun _ => rfl) rfl rfl
    | ok hero =>
      obtain ⟨hrange, race, selected, sheet, hselect, hsheet, rfl⟩ :=
        Character.roll_eq_ok_iff.mp hroll
      exact .hero (.built (.rolled hrange hselect hsheet)) rfl rfl rfl
  case copyHero target origin =>
    cases h
    cases hhero : w.heroes.get? origin with
    | none => exact .none (fun _ => rfl) rfl rfl
    | some hero => exact .hero (.copied hhero) rfl rfl rfl
  all_goals exact (keeps_of_perform rfl rfl h).effect rfl

lemma StoresRace.raceTarget?_eq {target : String} {race : Race}
    (h : w.StoresRace action target race) : action.raceTarget? = some target := by
  cases h <;> rfl

lemma StoresRace.heroTarget?_eq {target : String} {race : Race}
    (h : w.StoresRace action target race) : action.heroTarget? = none := by
  cases h <;> rfl

lemma Builds.heroTarget?_eq {target : String} {race : Race} {base : Sheet}
    (h : w.Builds action target race base) : action.heroTarget? = some target := by
  cases h <;> rfl

lemma StoresHero.heroTarget?_eq {target : String} {hero : Character}
    (h : w.StoresHero action target hero) : action.heroTarget? = some target := by
  cases h with
  | built hbuilds => exact hbuilds.heroTarget?_eq
  | copied => rfl

/-- An action leaves a race alone unless it stores one under the same name. -/
lemma Effect.get?_races (h : Effect w action answer) {name : String}
    (hname : action.raceTarget? ≠ some name) : answer.2.races.get? name = w.races.get? name := by
  cases h with
  | none _ races _ => rw [races]
  | @race target race stores races _ =>
    have hne : name ≠ target := by
      rintro rfl
      exact hname stores.raceTarget?_eq
    rw [races, Registers.get?_put, if_neg hne]
  | hero _ _ races _ => rw [races]

/-- What an action does to the character under a name: it leaves it alone, and is refused if it
could have replaced it, or it stores a character there. -/
lemma Effect.get?_heroes (h : Effect w action answer) (name : String) :
    (action.heroTarget? = some name → answer.1.isRefusal) ∧
        answer.2.heroes.get? name = w.heroes.get? name ∨
      answer.1.isRefusal = false ∧
        ∃ hero, w.StoresHero action name hero ∧ answer.2.heroes.get? name = some hero := by
  cases h with
  | none refused _ heroes =>
    refine .inl ⟨fun hname => refused ?_, by rw [heroes]⟩
    rw [hname]
    rfl
  | race stores _ heroes =>
    refine .inl ⟨fun hname => ?_, by rw [heroes]⟩
    rw [stores.heroTarget?_eq] at hname
    cases hname
  | @hero target hero stores reply _ heroes =>
    by_cases hname : name = target
    · subst hname
      refine .inr ⟨by rw [reply]; rfl, hero, stores, ?_⟩
      rw [heroes, Registers.get?_put, if_pos rfl]
    · refine .inl ⟨fun htarget => ?_, ?_⟩
      · rw [stores.heroTarget?_eq] at htarget
        exact absurd (Option.some.inj htarget).symm hname
      · rw [heroes, Registers.get?_put, if_neg hname]

lemma Effect.get?_heroes_of_spares (h : Effect w action answer) {name : String}
    (hspares : action.heroTarget? = some name → answer.1.isRefusal) :
    answer.2.heroes.get? name = w.heroes.get? name := by
  rcases h.get?_heroes name with ⟨-, hsame⟩ | ⟨hcarried, hero, hstores, -⟩
  · exact hsame
  · have hrefused := hspares hstores.heroTarget?_eq
    rw [hcarried] at hrefused
    cases hrefused

lemma Effect.exists_stores (h : Effect w action answer) {name : String}
    (hnamed : action.heroTarget? = some name) (hcarried : answer.1.isRefusal = false) :
    ∃ hero, w.StoresHero action name hero ∧ answer.2.heroes.get? name = some hero := by
  rcases h.get?_heroes name with ⟨hspares, -⟩ | ⟨-, hstores⟩
  · have hrefused := hspares hnamed
    rw [hcarried] at hrefused
    cases hrefused
  · exact hstores

lemma Builds.unique {target : String} {race race' : Race} {base base' : Sheet}
    (h : w.Builds action target race base) (h' : w.Builds action target race' base') :
    race = race' ∧ base = base' := by
  cases h with
  | made hsheet =>
    cases h' with
    | made hsheet' =>
      rw [hsheet] at hsheet'
      cases hsheet'
      exact ⟨rfl, rfl⟩
  | combined hrace hsheet =>
    cases h' with
    | combined hrace' hsheet' =>
      rw [hrace] at hrace'
      rw [hsheet] at hsheet'
      cases hrace'
      cases hsheet'
      exact ⟨rfl, rfl⟩
  | rolled _ hselect hroll =>
    cases h' with
    | rolled _ hselect' hroll' =>
      rw [hselect] at hselect'
      cases hselect'
      rw [hroll] at hroll'
      cases hroll'
      exact ⟨rfl, rfl⟩

/-- An action that has a race to store does store it. -/
lemma StoresRace.perform_eq {target : String} {race : Race} (h : w.StoresRace action target race) :
    ∃ source, w.perform action = some (keepRace { w with source } target race) := by
  cases h with
  | made => exact ⟨w.source, rfl⟩
  | copied hrace =>
    refine ⟨w.source, ?_⟩
    rw [perform, hrace]
    rfl
  | @selected target id race source hselect =>
    refine ⟨source, ?_⟩
    rw [perform, drawing, hselect]
    rfl
  | ofHero hhero =>
    refine ⟨w.source, ?_⟩
    rw [perform, hhero]
    rfl

/-- An action that has a character to store does store it. -/
lemma StoresHero.perform_eq {target : String} {hero : Character}
    (h : w.StoresHero action target hero) :
    ∃ source, w.perform action = some (keepHero { w with source } target hero) := by
  cases h with
  | @built _ _ race base hbuilds =>
    cases hbuilds with
    | made hsheet =>
      refine ⟨w.source, ?_⟩
      rw [perform, hsheet]
      rfl
    | combined hrace hsheet =>
      refine ⟨w.source, ?_⟩
      rw [perform, hrace, hsheet]
      rfl
    | @rolled target id race sheet selected rolled hrange hselect hroll =>
      have hhero := Character.roll_eq_ok_iff.mpr
        ⟨hrange, race, selected, sheet, hselect, hroll, rfl⟩
      refine ⟨rolled, ?_⟩
      rw [perform, drawing, StateT.run, hhero]
      rfl
  | copied hhero =>
    refine ⟨w.source, ?_⟩
    rw [perform, hhero]
    rfl

/-- A failed roll has drawn nothing. -/
lemma source_of_failed_roll {raceId : Int32} {config : Config} {s t : σ} {error : CharacterError}
    (h : (Character.roll raceId config).run s = some (.error error, t)) : t = s := by
  by_cases hrange : config.scoreRoll.min ≤ config.scoreRoll.max
  · by_cases hid : raceId < 0 ∨ (RaceKind.ofId? raceId).isSome
    · rw [Character.roll_eq_series hrange hid, StateT.run, Draw.map_apply] at h
      obtain ⟨drawn, -, heq⟩ := Option.map_eq_some_iff.mp h
      cases heq
    · rw [not_or, Option.not_isSome_iff_eq_none] at hid
      cases h.symm.trans (Character.roll_of_unknown_race hrange hid.1 hid.2 s)
      rfl
  · cases h.symm.trans (Character.roll_of_empty_range (UInt8.not_le.mp hrange) raceId s)
    rfl

/-- A refused action changes nothing, not even the source of random numbers. -/
theorem spares_of_perform (h : w.perform action = some answer) :
    w.Spares answer := by
  cases action
  case newEntry | setEntryScore | setEntryProficient | addEntry | saveEntry | newSheet | newSource |
      newConfig | setScoreRoll | setProficiencyBonus | containsScore | newRace =>
    cases h
    exact spares_of_carriedOut rfl
  case copySheet | showSheet | readEntry | raceBonus | heroBase | heroScores | copyRace | copyHero |
      heroRace | newHero =>
    cases h
    exact spares_reading fun _ => spares_of_carriedOut rfl
  case compareSheets | addSheets | addInto | applyRace | compareHeroes | combineHero =>
    cases h
    exact spares_reading fun _ => spares_reading fun _ => spares_of_carriedOut rfl
  case editSheet | lookupEntry | changeEntry =>
    cases h
    apply spares_reading
    intro sheet
    split
    · exact spares_of_carriedOut rfl
    · exact fun _ => rfl
  case rollEntry | rollSheet | drawRaceId | drawWord | drawInts =>
    rw [perform] at h
    obtain ⟨drawn, source, -, rfl⟩ := exists_of_drawing h
    exact spares_of_carriedOut rfl
  case selectRace target id =>
    rw [perform] at h
    obtain ⟨race, source, -, rfl⟩ := exists_of_drawing h
    cases race <;> cases target <;> exact spares_of_carriedOut rfl
  case rollHero target id =>
    rw [perform] at h
    obtain ⟨rolled, source, hroll, rfl⟩ := exists_of_drawing h
    cases rolled with
    | ok hero => exact spares_of_carriedOut rfl
    | error error =>
      cases source_of_failed_roll hroll
      exact fun _ => rfl
  case decodeSheet | readConfig | validateConfig =>
    rw [perform] at h
    split at h <;> cases h
    all_goals first | exact spares_of_carriedOut rfl | exact fun _ => rfl

end Workshop
end CharacterSheet
