import CharacterSheet.Proofs.Random.View
import CharacterSheet.Random.Forwarded
import CharacterSheet.Random.Script
import CharacterSheet.Random.Uniform

/-!
Sources behind any number of layers. Whatever is drawn through the layers, word by word or for whole
characters, is what the source inside gives by its own way of drawing, and the source is left as if
the layers were not there.
-/
namespace CharacterSheet

/-- Looking through a layer at the source inside. -/
def View.ofForwarded {σ : Type} [RandomSource σ] : View (Forwarded σ) σ where
  see := Forwarded.inner
  nextWord_see _ := rfl
  randomInt_see lo hi s := by
    change _ = ((RandomSource.randomInt lo hi s.inner).map _).map _
    rw [Option.map_map]
    exact Option.map_id'.symm

/-- A source behind a number of layers. -/
def Layered (σ : Type) : ℕ → Type
  | 0 => σ
  | n + 1 => Forwarded (Layered σ n)

namespace Layered

variable {σ : Type}

@[reducible] def source [RandomSource σ] : (n : ℕ) → RandomSource (Layered σ n)
  | 0 => inferInstanceAs (RandomSource σ)
  | n + 1 => @Forwarded.instRandomSource (Layered σ n) (source n)

instance [RandomSource σ] (n : ℕ) : RandomSource (Layered σ n) := source n

/-- Puts layers around a source. -/
def wrap : (n : ℕ) → σ → Layered σ n
  | 0, s => s
  | n + 1, s => Forwarded.mk (wrap n s)

/-- The source inside all layers. -/
def core : (n : ℕ) → Layered σ n → σ
  | 0, s => s
  | n + 1, s => core n (Forwarded.inner s)

@[simp] lemma core_wrap (n : ℕ) (s : σ) : core n (wrap n s) = s := by
  induction n with
  | zero => rfl
  | succ n ih => exact ih

/-- Looking through all layers at the source inside. -/
def view [RandomSource σ] : (n : ℕ) → View (Layered σ n) σ
  | 0 => .refl
  | n + 1 => View.ofForwarded.trans (view n)

lemma see_view [RandomSource σ] (n : ℕ) : (view n : View (Layered σ n) σ).see = core n := by
  induction n with
  | zero => rfl
  | succ n ih => exact funext fun s => congrFun ih s.inner

end Layered

/-! ### What is done with a source -/

/-- Something that a source is used for. -/
inductive Errand where
  | word
  | int (lo hi : Int32)
  | entry
  | entryIn (range : ScoreRange)
  | sheet
  | sheetIn (range : ScoreRange)
  | randomRaceId
  | race (id : Int32)
  | hero (raceId : Int32) (config : Config)
  deriving DecidableEq, Repr

/-- What comes of it. -/
inductive Outcome where
  | word (word : UInt32)
  | int (value : Int32)
  | entry (rolled : AbilityScore)
  | sheet (rolled : Sheet)
  | race (found : Option Race)
  | hero (rolled : Except CharacterError Character)

namespace Errand

variable {σ τ : Type} [RandomSource σ] [RandomSource τ]

def run : Errand → Draw σ Outcome
  | word => .word <$> Draw.word
  | int lo hi => .int <$> Draw.int lo hi
  | entry => .entry <$> AbilityScore.roll
  | entryIn range => .entry <$> AbilityScore.rollIn range
  | sheet => .sheet <$> Sheet.roll
  | sheetIn range => .sheet <$> Sheet.rollIn range
  | randomRaceId => .int <$> RaceKind.randomId
  | race id => .race <$> Race.select id
  | hero raceId config => .hero <$> Character.roll raceId config

/-- Does one thing after another and lists the outcomes. -/
def runAll : List Errand → Draw σ (List Outcome)
  | [] => pure []
  | errand :: errands => do
    let first ← errand.run
    let others ← runAll errands
    pure (first :: others)

/-- The same with a source that is wrapped for each errand anew, each time in as many layers as the
errand says. -/
def runLent : List (ℕ × Errand) → Draw σ (List Outcome)
  | [] => pure []
  | (n, errand) :: errands => do
    let first ← fun s => (errand.run (Layered.wrap n s)).map (Prod.map id (Layered.core n))
    let others ← runLent errands
    pure (first :: others)

lemma carries_run (v : View τ σ) (errand : Errand) : v.Carries errand.run errand.run := by
  cases errand with
  | word => exact v.carries_word.map _
  | int lo hi => exact (v.carries_int lo hi).map _
  | entry => exact (v.carries_entry _).map _
  | entryIn range => exact (v.carries_entry range).map _
  | sheet => exact (v.carries_sheet _).map _
  | sheetIn range => exact (v.carries_sheet range).map _
  | randomRaceId => exact v.carries_raceId.map _
  | race id => exact (v.carries_race id).map _
  | hero raceId config => exact (v.carries_character raceId config).map _

lemma carries_runAll (v : View τ σ) (errands : List Errand) :
    v.Carries (runAll errands) (runAll errands) := by
  induction errands with
  | nil => exact v.carries_pure []
  | cons errand errands ih =>
    exact (carries_run v errand).bind fun first => ih.bind fun others => v.carries_pure _

end Errand

namespace Layered

variable {σ : Type} [RandomSource σ] (n : ℕ) {α : Type}

/-- What a view carries comes out of the layers as it does without them. -/
lemma map_core_of_carries {d : Draw (Layered σ n) α} {e : Draw σ α} (h : (view n).Carries d e)
    (s : σ) : (d (wrap n s)).map (Prod.map id (core n)) = e s := by
  have hs := h (wrap n s)
  rw [see_view, core_wrap] at hs
  exact hs.symm

lemma runLent_eq (errands : List (ℕ × Errand)) :
    (Errand.runLent errands : Draw σ (List Outcome)) = Errand.runAll (errands.map Prod.snd) := by
  induction errands with
  | nil => rfl
  | cons first errands ih =>
    obtain ⟨n, errand⟩ := first
    have hrun : (fun s : σ => (errand.run (wrap n s)).map (Prod.map id (core n))) = errand.run :=
      funext fun s => map_core_of_carries n (errand.carries_run _) s
    rw [Errand.runLent, hrun, ih]
    rfl

/-- Layers around a source make no difference, however many there are. Words and integers are those
of the source itself, drawn in its own way, and any series of errands has the same outcomes and
leaves the same source inside, also when each errand goes through layers of its own. -/
theorem layers_are_transparent (n : ℕ) (s : σ) :
    Prod.map id (core n) (RandomSource.nextWord (wrap n s)) = RandomSource.nextWord s ∧
    (∀ lo hi, (RandomSource.randomInt lo hi (wrap n s)).map (Prod.map id (core n)) =
      RandomSource.randomInt lo hi s) ∧
    (∀ errands, (Errand.runAll errands (wrap n s)).map (Prod.map id (core n)) =
      Errand.runAll errands s) ∧
    ∀ errands : List (ℕ × Errand), Errand.runLent errands s =
      Errand.runAll (errands.map Prod.snd) s := by
  refine ⟨Option.some.inj (map_core_of_carries n (view n).carries_word s),
    fun lo hi => map_core_of_carries n ((view n).carries_int lo hi) s,
    fun errands => map_core_of_carries n (Errand.carries_runAll _ errands) s, fun errands => ?_⟩
  rw [runLent_eq]

/-- The word that is due is not taken for an integer. -/
example : (RandomSource.randomInt 8 18 (wrap 3 (Script.ofList [99]))).map (·.1) = some 18 ∧
    Uniform.accept 8 18 (RandomSource.nextWord (wrap 3 (Script.ofList [99]))).1 = some 8 := by
  decide

end Layered
end CharacterSheet
