import CharacterSheet.Character
import CharacterSheet.Proofs.Random.Series

/-!
Views of sources. A view shows every state of one source as a state of another in such a way that
both give the same words and the same integers. Whatever is drawn from the first source is then what
the second would have given, and the state left behind is seen as the one the second would have
left.
-/
namespace CharacterSheet

variable {ρ σ τ : Type} [RandomSource ρ] [RandomSource σ] [RandomSource τ]

/-- A way to see the states of one source as states of another that draws alike. -/
structure View (τ σ : Type) [RandomSource τ] [RandomSource σ] where
  see : τ → σ
  nextWord_see (s : τ) :
    RandomSource.nextWord (see s) = Prod.map id see (RandomSource.nextWord s)
  randomInt_see (lo hi : Int32) (s : τ) : RandomSource.randomInt lo hi (see s) =
    (RandomSource.randomInt lo hi s).map (Prod.map id see)

namespace View

/-- Every source is a view of itself. -/
def refl : View σ σ where
  see s := s
  nextWord_see _ := rfl
  randomInt_see lo hi s := by cases RandomSource.randomInt lo hi s <;> rfl

/-- What a view shows can be viewed again. -/
def trans (w : View τ σ) (v : View σ ρ) : View τ ρ where
  see s := v.see (w.see s)
  nextWord_see s := by rw [v.nextWord_see, w.nextWord_see]; rfl
  randomInt_see lo hi s := by rw [v.randomInt_see, w.randomInt_see, Option.map_map]; rfl

/-- Whoever only draws does not notice that a record is kept. -/
def ofRecorded : View (Recorded σ) σ where
  see := Recorded.inner
  nextWord_see _ := rfl
  randomInt_see lo hi s := by
    change _ = ((RandomSource.randomInt lo hi s.inner).map _).map _
    rw [Option.map_map]
    exact Option.map_id'.symm

variable (v : View τ σ) {α β : Type}

/-- A draw comes out alike on both sides of a view: with the same result, and with states of which
one is seen as the other. -/
def Carries (d : Draw τ α) (e : Draw σ α) : Prop :=
  ∀ s, e (v.see s) = (d s).map (Prod.map id v.see)

lemma carries_pure (a : α) : v.Carries (pure a) (pure a) := fun _ => rfl

lemma carries_word : v.Carries Draw.word Draw.word := fun s => congrArg some (v.nextWord_see s)

lemma carries_int (lo hi : Int32) : v.Carries (Draw.int lo hi) (Draw.int lo hi) :=
  v.randomInt_see lo hi

variable {v}

lemma Carries.bind {d : Draw τ α} {e : Draw σ α} {f : α → Draw τ β} {g : α → Draw σ β}
    (hd : v.Carries d e) (hf : ∀ a, v.Carries (f a) (g a)) : v.Carries (d >>= f) (e >>= g) := by
  intro s
  rw [Draw.bind_apply, Draw.bind_apply, hd]
  cases d s with
  | none => rfl
  | some r => exact hf r.1 r.2

lemma Carries.map {d : Draw τ α} {e : Draw σ α} (hd : v.Carries d e) (f : α → β) :
    v.Carries (f <$> d) (f <$> e) := by
  intro s
  rw [Draw.map_apply, Draw.map_apply, hd, Option.map_map, Option.map_map]
  rfl

variable (v)

lemma carries_series (ranges : List (Int32 × Int32)) :
    v.Carries (Draw.series ranges) (Draw.series ranges) := by
  induction ranges with
  | nil => exact v.carries_pure []
  | cons range ranges ih =>
    exact (v.carries_int _ _).bind fun value => ih.bind fun values => v.carries_pure _

/-! ### Rolls -/

lemma carries_entry (range : ScoreRange) :
    v.Carries (AbilityScore.rollIn range) (AbilityScore.rollIn range) :=
  (v.carries_int _ _).bind fun _ => v.carries_pure _

lemma carries_sheet (range : ScoreRange) : v.Carries (Sheet.rollIn range) (Sheet.rollIn range) := by
  have hentry := v.carries_entry range
  exact hentry.bind fun _ => hentry.bind fun _ => hentry.bind fun _ => hentry.bind fun _ =>
    hentry.bind fun _ => hentry.bind fun _ => v.carries_pure _

lemma carries_raceId : v.Carries RaceKind.randomId RaceKind.randomId :=
  ((v.carries_int _ _).bind fun _ => v.carries_pure _).bind fun _ => v.carries_pure _

lemma carries_race (raceId : Int32) : v.Carries (Race.select raceId) (Race.select raceId) := by
  rw [Race.select, Race.select]
  split
  · exact v.carries_raceId.bind fun _ => v.carries_pure _
  · exact v.carries_pure _

lemma carries_character (raceId : Int32) (config : Config) :
    v.Carries (Character.roll raceId config) (Character.roll raceId config) := by
  rw [Character.roll, Character.roll]
  split
  · exact v.carries_pure _
  · refine (v.carries_race raceId).bind fun race => ?_
    cases race with
    | none => exact v.carries_pure _
    | some race => exact (v.carries_sheet _).bind fun _ => v.carries_pure _

end View
end CharacterSheet
