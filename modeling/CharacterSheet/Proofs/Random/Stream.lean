import CharacterSheet.Proofs.Random.Uniform
import CharacterSheet.Proofs.Random.View
import Mathlib.Data.Stream.Init

/-!
Streams of words as sources. A source that draws its integers by remainder matters only through
the stream of its words, and a word that the draw under way rejects might as well not be there.
-/
namespace CharacterSheet

namespace RandomSource

/-- The integers of a source are drawn by remainder from its words. -/
def ByRemainder (σ : Type) [RandomSource σ] : Prop :=
  ∀ lo hi (s : σ), randomInt lo hi s = Uniform.int nextWord lo hi s

/-- The words that a source has still to give. -/
def words {σ : Type} [RandomSource σ] (s : σ) : Stream' UInt32 :=
  fun k => Redraw.wordAfter nextWord k s

end RandomSource

/-- A stream gives its own words, and integers by remainder. -/
instance : RandomSource (Stream' UInt32) := Uniform.source fun x => (x.head, x.tail)

namespace Redraw

variable {σ τ α : Type} {next : σ → UInt32 × σ} {next' : τ → UInt32 × τ} {view : σ → τ}

lemma stateAfter_view (h : ∀ s, next' (view s) = ((next s).1, view (next s).2)) (k : ℕ) (s : σ) :
    stateAfter next' k (view s) = view (stateAfter next k s) := by
  induction k generalizing s with
  | zero => rfl
  | succ k ih => rw [stateAfter_succ, stateAfter_succ, h, ih]

lemma wordAfter_view (h : ∀ s, next' (view s) = ((next s).1, view (next s).2)) (k : ℕ) (s : σ) :
    wordAfter next' k (view s) = wordAfter next k s := by
  rw [wordAfter, stateAfter_view h, h, wordAfter]

/-- A search sees of a source only what a view of it shows. -/
lemma first_view (h : ∀ s, next' (view s) = ((next s).1, view (next s).2))
    (accept : UInt32 → Option α) (s : σ) :
    first next' accept (view s) = (first next accept s).map (Prod.map id view) := by
  ext ⟨a, u⟩
  rw [first_eq_some_iff, Option.map_eq_some_iff]
  simp only [wordAfter_view h, stateAfter_view h]
  constructor
  · rintro ⟨k, hbefore, hk, rfl⟩
    exact ⟨(a, stateAfter next (k + 1) s), (first_eq_some_iff next accept).mpr
      ⟨k, hbefore, hk, rfl⟩, rfl⟩
  · rintro ⟨⟨b, t⟩, hfirst, heq⟩
    cases heq
    obtain ⟨k, hbefore, hk, rfl⟩ := (first_eq_some_iff next accept).mp hfirst
    exact ⟨k, hbefore, hk, rfl⟩

end Redraw

namespace Draw

/-- A source that draws by remainder draws the same integers as the stream of its words. -/
lemma randomInt_words {σ : Type} [RandomSource σ] (h : RandomSource.ByRemainder σ) (lo hi : Int32)
    (s : σ) : RandomSource.randomInt lo hi (RandomSource.words s) =
      (RandomSource.randomInt lo hi s).map (Prod.map id RandomSource.words) := by
  have hview : ∀ t : σ, RandomSource.nextWord (RandomSource.words t) =
      ((RandomSource.nextWord t).1, RandomSource.words (RandomSource.nextWord t).2) := fun _ => rfl
  have hstream : RandomSource.randomInt lo hi (RandomSource.words s) =
      Uniform.int RandomSource.nextWord lo hi (RandomSource.words s) := rfl
  rw [hstream, h, Uniform.int, Uniform.int]
  by_cases hle : hi ≤ lo
  · rw [if_pos hle, if_pos hle]
    rfl
  · rw [if_neg hle, if_neg hle, Redraw.first_view hview]

/-- The words of a source that draws by remainder are a view of it. -/
def wordsView {σ : Type} [RandomSource σ] (h : RandomSource.ByRemainder σ) :
    View σ (Stream' UInt32) where
  see := RandomSource.words
  nextWord_see _ := rfl
  randomInt_see := randomInt_words h

lemma series_words {σ : Type} [RandomSource σ] (h : RandomSource.ByRemainder σ)
    (ranges : List (Int32 × Int32)) (s : σ) :
    series ranges (RandomSource.words s) =
      (series ranges s).map (Prod.map id RandomSource.words) :=
  (wordsView h).carries_series ranges s

section Words

variable {lo hi v : Int32} {w : UInt32} {ranges : List (Int32 × Int32)}

lemma series_of_reject (h : lo < hi) (hw : Uniform.accept lo hi w = none) (x : Stream' UInt32) :
    series ((lo, hi) :: ranges) (x.cons w) = series ((lo, hi) :: ranges) x := by
  have hint : RandomSource.randomInt lo hi (x.cons w) = RandomSource.randomInt lo hi x := by
    change Uniform.int _ lo hi _ = Uniform.int _ lo hi _
    rw [Uniform.int_of_lt _ h, Uniform.int_of_lt _ h, Redraw.first_of_reject]
    · rfl
    · exact hw
  rw [series_cons, series_cons, hint]

lemma series_of_accept (h : lo < hi) (hw : Uniform.accept lo hi w = some v) (x : Stream' UInt32) :
    series ((lo, hi) :: ranges) (x.cons w) =
      (series ranges x).map fun (values, rest) => (v :: values, rest) := by
  have hint : RandomSource.randomInt lo hi (x.cons w) = some (v, x) := by
    change Uniform.int _ lo hi _ = _
    rw [Uniform.int_of_lt _ h, Redraw.first_of_accept (a := v)]
    · rfl
    · exact hw
  rw [series_cons, hint, Option.bind_some]

/-- A series for one range uses up one word for each draw if all the words are accepted. -/
lemma series_replicate_of_lt_cut (h : lo < hi) {ws : List UInt32}
    (hws : ∀ w ∈ ws, w.toNat < Uniform.cut (Uniform.size lo hi)) (x : Stream' UInt32) :
    series (List.replicate ws.length (lo, hi)) (ws ++ₛ x) =
      some (ws.map (Uniform.answer lo hi), x) := by
  induction ws with
  | nil => rfl
  | cons w ws ih =>
    have haccept := Uniform.accept_of_lt_cut h (hws w (by simp))
    rw [List.length_cons, List.replicate_succ, Stream'.cons_append_stream,
      series_of_accept h haccept, ih fun w hw => hws w (by simp [hw])]
    rfl

end Words

/-- The second stream is the first with words put in, each of which is rejected by the draw that
comes upon it. -/
inductive Padded : List (Int32 × Int32) → Stream' UInt32 → Stream' UInt32 → Prop where
  | refl (ranges : List (Int32 × Int32)) (x : Stream' UInt32) : Padded ranges x x
  | gap {lo hi : Int32} {ranges : List (Int32 × Int32)} {x y : Stream' UInt32} {w : UInt32}
      (rejected : Uniform.accept lo hi w = none) (tail : Padded ((lo, hi) :: ranges) x y) :
      Padded ((lo, hi) :: ranges) x (y.cons w)
  | reject {lo hi : Int32} {ranges : List (Int32 × Int32)} {x y : Stream' UInt32} {w : UInt32}
      (rejected : Uniform.accept lo hi w = none) (tail : Padded ((lo, hi) :: ranges) x y) :
      Padded ((lo, hi) :: ranges) (x.cons w) (y.cons w)
  | accept {lo hi v : Int32} {ranges : List (Int32 × Int32)} {x y : Stream' UInt32} {w : UInt32}
      (accepted : Uniform.accept lo hi w = some v) (tail : Padded ranges x y) :
      Padded ((lo, hi) :: ranges) (x.cons w) (y.cons w)

/-- A rejected word changes neither the integers drawn nor the words left. -/
lemma Padded.series_eq {ranges : List (Int32 × Int32)} {x y : Stream' UInt32}
    (h : Padded ranges x y) (hranges : ∀ r ∈ ranges, r.1 < r.2) :
    series ranges y = series ranges x := by
  induction h with
  | refl ranges x => rfl
  | gap rejected tail ih =>
    have hlt := hranges _ List.mem_cons_self
    rw [series_of_reject hlt rejected, ih hranges]
  | reject rejected tail ih =>
    have hlt := hranges _ List.mem_cons_self
    rw [series_of_reject hlt rejected, series_of_reject hlt rejected, ih hranges]
  | accept accepted tail ih =>
    have hlt := hranges _ List.mem_cons_self
    rw [series_of_accept hlt accepted, series_of_accept hlt accepted,
      ih fun r hr => hranges r (List.mem_cons_of_mem _ hr)]

end Draw
end CharacterSheet
