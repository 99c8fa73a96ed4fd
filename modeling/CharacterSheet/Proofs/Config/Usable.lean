import CharacterSheet.Proofs.Character.Roll
import CharacterSheet.Proofs.Config.Parse
import CharacterSheet.Proofs.Race.Bonus
import CharacterSheet.Proofs.Random.Script
import CharacterSheet.Proofs.Sheet.Order

/-!
Which configurations are usable. Reading a text and rolling a character refuse the same ranges with
the same error, so whatever a text is accepted as can be rolled with, and the scores stay within the
range that the text states.
-/
namespace CharacterSheet

lemma ScoreRange.contains_iff {range : ScoreRange} {score : UInt8} :
    range.contains score ↔ range.min ≤ score ∧ score ≤ range.max := by
  simp [contains]

namespace Character

variable {σ : Type} [RandomSource σ] {raceId : Int32} {config : Config}

lemma exists_roll (hends : RandomSource.Ends σ)
    (hrange : config.scoreRoll.min ≤ config.scoreRoll.max)
    (hid : raceId < 0 ∨ (RaceKind.ofId? raceId).isSome) (s : σ) :
    ∃ drawn t, Draw.series (ranges raceId config.scoreRoll) s = some (drawn, t) ∧
      drawn.length = (ranges raceId config.scoreRoll).length ∧
      roll raceId config s = some (.ok (ofDrawn raceId config drawn), t) := by
  obtain ⟨drawn, t, hseries, hlength⟩ :=
    Draw.exists_series hends (ranges raceId config.scoreRoll) s
  exact ⟨drawn, t, hseries, hlength, roll_of_series hrange hid hseries⟩

/-- Base scores made of integers that keep to the bounds lie in the range. -/
lemma contains_base_ofDrawn (hbounds : RandomSource.KeepsBounds σ)
    (hrange : config.scoreRoll.min ≤ config.scoreRoll.max) {s t : σ} {drawn : List Int32}
    (h : Draw.series (ranges raceId config.scoreRoll) s = some (drawn, t))
    (hlength : drawn.length = (ranges raceId config.scoreRoll).length) (a : Ability) :
    config.scoreRoll.contains ((ofDrawn raceId config drawn).base.score a) := by
  have hplace : a.index < (scoresDrawn raceId drawn).length := by
    rw [length_scoresDrawn hlength]
    exact a.index.isLt
  have hmem : (scoresDrawn raceId drawn).getD a.index 0 ∈ scoresDrawn raceId drawn := by
    rw [List.getD_eq_getElem _ _ hplace]
    exact List.getElem_mem hplace
  obtain ⟨hlo, hhi⟩ := bounds_of_mem_scoresDrawn hbounds hrange h _ hmem
  rw [ScoreRange.contains_iff, Sheet.score, get_base_ofDrawn]
  exact scoreOr_mem hlo hhi

end Character

namespace Config

/-- Every character can be rolled with a configuration, from any source whose draws end. -/
def Rollable (config : Config) : Prop :=
  ∀ (σ : Type) [RandomSource σ], RandomSource.Ends σ → ∀ (raceId : Int32) (s : σ),
    raceId < 0 ∨ raceId ∈ ([0, 1, 2, 3, 4] : List Int32) →
    ∃ hero t, Character.roll raceId config s = some (.ok hero, t)

/-- Characters can be rolled just when the range is in order: a script answers every request, so
only the range can stand in the way. -/
lemma rollable_iff {config : Config} :
    config.Rollable ↔ config.scoreRoll.min ≤ config.scoreRoll.max := by
  constructor
  · intro h
    by_contra hrange
    obtain ⟨hero, t, hroll⟩ := h Script Script.ends (-1) (.ofList []) (by decide)
    rw [Character.roll_of_empty_range (UInt8.not_le.mp hrange)] at hroll
    cases hroll
  · intro hrange σ _ hends raceId s hid
    rw [← Character.isSome_ofId?_iff] at hid
    obtain ⟨drawn, t, -, -, hroll⟩ := Character.exists_roll hends hrange hid s
    exact ⟨_, t, hroll⟩

/-- Reading a text and rolling a character agree on which configurations are usable: a text is
accepted just when characters can be rolled with what it states, and otherwise both refuse the
range. What is accepted gives scores in the stated range, which no race lowers. -/
theorem parse_agrees_with_roll :
    (∀ text detail entries config, Toml.Entries.read? text = some entries → States entries config →
      (parse text detail = .ok config ↔ config.Rollable) ∧
      (¬ config.Rollable →
        parse text detail = .error (.invalid (.invalidScoreRange config.scoreRoll)) ∧
        ∀ (σ : Type) [RandomSource σ] (raceId : Int32) (s : σ),
          Character.roll raceId config s =
            some (.error (.config (.invalidScoreRange config.scoreRoll)), s))) ∧
    ∀ text detail config, parse text detail = .ok config →
      ∀ (σ : Type) [RandomSource σ], RandomSource.Ends σ → RandomSource.KeepsBounds σ →
        ∀ (raceId : Int32) (s : σ), raceId < 0 ∨ raceId ∈ ([0, 1, 2, 3, 4] : List Int32) →
        ∃ hero t, Character.roll raceId config s = some (.ok hero, t) ∧
          ∀ a, config.scoreRoll.contains (hero.base.score a) ∧
            hero.base.score a ≤ hero.scores.score a := by
  refine ⟨fun text detail entries config hread hstates => ?_, fun text detail config hparse => ?_⟩
  · have hstated : stated? text = some config := stated?_eq_some_iff.mpr ⟨entries, hread, hstates⟩
    refine ⟨?_, fun hrollable => ?_⟩
    · rw [parse_ok_iff, rollable_iff, and_iff_right hstated]
    · rw [rollable_iff, UInt8.not_le] at hrollable
      exact ⟨parse_invalid_iff.mpr ⟨config, hstated, rfl, hrollable⟩,
        fun σ _ raceId s => Character.roll_of_empty_range hrollable raceId s⟩
  · intro σ _ hends hbounds raceId s hid
    have hrange := (parse_ok_iff.mp hparse).2
    rw [← Character.isSome_ofId?_iff] at hid
    obtain ⟨drawn, t, hseries, hlength, hroll⟩ := Character.exists_roll hends hrange hid s
    exact ⟨_, t, hroll, fun a =>
      ⟨Character.contains_base_ofDrawn hbounds hrange hseries hlength a,
        Sheet.score_le_score_add _ _ a⟩⟩

/-- A bound that is stated alone may contradict the standard one, for the loader and for rolls. -/
theorem half_stated_range_is_refused :
    (∃ entries, Toml.Entries.read? "[score_roll]\nmin = 19" = some entries ∧
      States entries ⟨⟨19, 18⟩, 2⟩) ∧
    parse "[score_roll]\nmin = 19" "" = .error (.invalid (.invalidScoreRange ⟨19, 18⟩)) ∧
    Character.roll (-1) ⟨⟨19, 18⟩, 2⟩ (Script.ofList [1]) =
      some (.error (.config (.invalidScoreRange ⟨19, 18⟩)), Script.ofList [1]) ∧
    parse "score_roll.max = 20" "" = .ok ⟨⟨8, 20⟩, 2⟩ ∧
    ∃ hero t, Character.roll 4 ⟨⟨8, 20⟩, 2⟩ (Script.ofList [99]) = some (.ok hero, t) ∧
      ∀ a, ScoreRange.contains ⟨8, 20⟩ (hero.base.score a) ∧
        hero.base.score a ≤ hero.scores.score a := by
  have hstated : stated? "[score_roll]\nmin = 19" = some ⟨⟨19, 18⟩, 2⟩ := by decide +kernel
  obtain ⟨entries, hread, hstates⟩ := stated?_eq_some_iff.mp hstated
  have hrefused : ¬ Rollable ⟨⟨19, 18⟩, 2⟩ := by
    rw [rollable_iff]
    decide
  obtain ⟨hparse, hroll⟩ := (parse_agrees_with_roll.1 _ "" _ _ hread hstates).2 hrefused
  have hok : parse "score_roll.max = 20" "" = .ok ⟨⟨8, 20⟩, 2⟩ := by decide +kernel
  exact ⟨⟨entries, hread, hstates⟩, hparse, hroll Script (-1) _, hok,
    parse_agrees_with_roll.2 _ _ _ hok Script Script.ends Script.keepsBounds 4 _ (by decide)⟩

end Config
end CharacterSheet
