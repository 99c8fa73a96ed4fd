import CharacterSheet.Random.Source
import Mathlib.Data.List.Forall2

/-!
Series of draws. A series asks for one integer after another; over a source that keeps a record of
what it is asked, the record shows exactly the requests made and the answers given.
-/
namespace CharacterSheet

/-- Every draw of an integer ends. -/
def RandomSource.Ends (σ : Type) [RandomSource σ] : Prop :=
  ∀ lo hi (s : σ), (RandomSource.randomInt lo hi s).isSome

/-- An integer drawn for a range lies in it. -/
def RandomSource.KeepsBounds (σ : Type) [RandomSource σ] : Prop :=
  ∀ lo hi (s : σ) v t, lo ≤ hi → RandomSource.randomInt lo hi s = some (v, t) → lo ≤ v ∧ v ≤ hi

/-- Something that a source was asked for, with its answer. -/
inductive Request where
  | word (answer : UInt32)
  | int (lo hi answer : Int32)
  deriving DecidableEq, Repr

/-- Something that a source can be asked for. -/
inductive Call where
  | word
  | int (lo hi : Int32)
  deriving DecidableEq, Repr

/-- What was asked for in a request. -/
def Request.call : Request → Call
  | word _ => .word
  | int lo hi _ => .int lo hi

/-- A source together with a record of all that it was asked for, in order. -/
structure Recorded (σ : Type) where
  inner : σ
  record : List Request

namespace Recorded

variable {σ : Type} [RandomSource σ]

def start (s : σ) : Recorded σ := ⟨s, []⟩

instance : RandomSource (Recorded σ) where
  nextWord s :=
    let (word, rest) := RandomSource.nextWord s.inner
    (word, ⟨rest, s.record ++ [.word word]⟩)
  randomInt lo hi s :=
    (RandomSource.randomInt lo hi s.inner).map fun (answer, rest) =>
      (answer, ⟨rest, s.record ++ [.int lo hi answer]⟩)

end Recorded

namespace Draw

variable {σ α β : Type}

lemma bind_apply (d : Draw σ α) (f : α → Draw σ β) (s : σ) :
    (d >>= f) s = (d s).bind fun r => f r.1 r.2 := rfl

lemma map_apply (d : Draw σ α) (f : α → β) (s : σ) :
    (f <$> d) s = (d s).map fun r => (f r.1, r.2) := by
  cases h : d s <;> simp [Functor.map, StateT.map, h]

variable [RandomSource σ]

/-- Draws an integer for each of a list of ranges, in order. -/
def series : List (Int32 × Int32) → Draw σ (List Int32)
  | [] => pure []
  | (lo, hi) :: ranges => do
    let value ← int lo hi
    let values ← series ranges
    pure (value :: values)

@[simp] lemma series_nil (s : σ) : series [] s = some ([], s) := rfl

lemma series_cons (lo hi : Int32) (ranges : List (Int32 × Int32)) (s : σ) :
    series ((lo, hi) :: ranges) s = (RandomSource.randomInt lo hi s).bind fun (value, t) =>
      (series ranges t).map fun (values, u) => (value :: values, u) := by
  rw [series, bind_apply]
  refine congrArg _ (funext fun ⟨value, t⟩ => ?_)
  dsimp only
  rw [bind_apply]
  cases series ranges t <;> rfl

/-- A series ends if every draw does, and answers one integer for each range. -/
lemma exists_series (hends : RandomSource.Ends σ) (ranges : List (Int32 × Int32)) (s : σ) :
    ∃ values t, series ranges s = some (values, t) ∧ values.length = ranges.length := by
  induction ranges generalizing s with
  | nil => exact ⟨[], s, rfl, rfl⟩
  | cons range ranges ih =>
    obtain ⟨lo, hi⟩ := range
    obtain ⟨⟨value, t⟩, ht⟩ := Option.isSome_iff_exists.mp (hends lo hi s)
    obtain ⟨values, u, hu, hlength⟩ := ih t
    exact ⟨value :: values, u, by simp [series_cons, ht, hu], by simp [hlength]⟩

/-- A source that keeps to the bounds it is asked for makes every integer lie in its range. -/
lemma forall₂_series (hbounds : RandomSource.KeepsBounds σ) {ranges : List (Int32 × Int32)}
    (hranges : ∀ r ∈ ranges, r.1 ≤ r.2) {s t : σ} {values : List Int32}
    (h : series ranges s = some (values, t)) :
    List.Forall₂ (fun r v => r.1 ≤ v ∧ v ≤ r.2) ranges values := by
  induction ranges generalizing s values with
  | nil =>
    rw [series_nil, Option.some.injEq, Prod.mk.injEq] at h
    exact h.1 ▸ .nil
  | cons range ranges ih =>
    obtain ⟨lo, hi⟩ := range
    rw [series_cons, Option.bind_eq_some_iff] at h
    obtain ⟨⟨value, u⟩, hvalue, hrest⟩ := h
    obtain ⟨⟨rest, v⟩, hrest, heq⟩ := Option.map_eq_some_iff.mp hrest
    cases heq
    exact .cons (hbounds lo hi s value u (hranges (lo, hi) (by simp)) hvalue)
      (ih (fun r hr => hranges r (by simp [hr])) hrest)

lemma forall_mem_of_forall₂_replicate {α β : Type} {r : α → β → Prop} {n : ℕ} {a : α} {bs : List β}
    (h : List.Forall₂ r (List.replicate n a) bs) : ∀ b ∈ bs, r a b := by
  induction n generalizing bs with
  | zero => simp [List.forall₂_nil_left_iff.mp h]
  | succ n ih =>
    obtain ⟨b, bs, hab, hbs, rfl⟩ := List.forall₂_cons_left_iff.mp h
    simpa using ⟨hab, ih hbs⟩

/-- The requests made by a series, with the answers they got. -/
def answered (ranges : List (Int32 × Int32)) (values : List Int32) : List Request :=
  List.zipWith (fun r v => .int r.1 r.2 v) ranges values

lemma answered_cons (range : Int32 × Int32) (ranges : List (Int32 × Int32)) (value : Int32)
    (values : List Int32) : answered (range :: ranges) (value :: values) =
      .int range.1 range.2 value :: answered ranges values := rfl

lemma answered_replicate {n : ℕ} {range : Int32 × Int32} {values : List Int32}
    (h : values.length = n) :
    answered (List.replicate n range) values = values.map (.int range.1 range.2) := by
  subst h
  induction values with
  | nil => rfl
  | cons value values ih => exact congrArg _ ih

/-- The record of a series shows one request for each range, in order, and nothing else. -/
lemma series_recorded (ranges : List (Int32 × Int32)) (s : Recorded σ) :
    series ranges s = (series ranges s.inner).map fun (values, t) =>
      (values, ⟨t, s.record ++ answered ranges values⟩) := by
  induction ranges generalizing s with
  | nil => simp [answered]
  | cons range ranges ih =>
    obtain ⟨lo, hi⟩ := range
    have hint : RandomSource.randomInt lo hi s = (RandomSource.randomInt lo hi s.inner).map
        fun (answer, t) => (answer, ⟨t, s.record ++ [.int lo hi answer]⟩) := rfl
    rw [series_cons, series_cons, hint]
    cases hv : RandomSource.randomInt lo hi s.inner with
    | none => rfl
    | some r =>
      obtain ⟨value, t⟩ := r
      simp only [Option.map_some, Option.bind_some, ih]
      cases series ranges t <;> simp [answered]

/-! ### Calls of both kinds -/

/-- Makes a call and notes its answer. -/
def request : Call → Draw σ Request
  | .word => do
    let answer ← word
    pure (.word answer)
  | .int lo hi => do
    let answer ← int lo hi
    pure (.int lo hi answer)

/-- Makes calls in order and notes all answers. -/
def requests : List Call → Draw σ (List Request)
  | [] => pure []
  | call :: calls => do
    let first ← request call
    let others ← requests calls
    pure (first :: others)

lemma requests_cons_of_eq {call : Call} {calls : List Call} {s t u : σ} {first : Request}
    {others : List Request} (hfirst : request call s = some (first, t))
    (hothers : requests calls t = some (others, u)) :
    requests (call :: calls) s = some (first :: others, u) := by
  rw [requests, bind_apply, hfirst, Option.bind_some, bind_apply, hothers]
  rfl

end Draw
end CharacterSheet
