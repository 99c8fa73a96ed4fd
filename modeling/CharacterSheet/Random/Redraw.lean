/-!
Drawing words until one is accepted. The answer comes from the first accepted word of the stream,
however late it is; there is none if every word is rejected. With a bound on the number of words
the search always ends, and finds the same answer if the bound is large enough.
-/
namespace CharacterSheet.Redraw

variable {σ α : Type} (next : σ → UInt32 × σ) (accept : UInt32 → Option α)

def stateAfter : Nat → σ → σ
  | 0, s => s
  | count + 1, s => stateAfter count (next s).2

def wordAfter (count : Nat) (s : σ) : UInt32 := (next (stateAfter next count s)).1

@[simp] theorem stateAfter_zero (s : σ) : stateAfter next 0 s = s := rfl

@[simp] theorem stateAfter_succ (count : Nat) (s : σ) :
    stateAfter next (count + 1) s = stateAfter next count (next s).2 := rfl

@[simp] theorem wordAfter_zero (s : σ) : wordAfter next 0 s = (next s).1 := rfl

@[simp] theorem wordAfter_succ (count : Nat) (s : σ) :
    wordAfter next (count + 1) s = wordAfter next count (next s).2 := rfl

theorem stateAfter_add (i j : Nat) (s : σ) :
    stateAfter next (i + j) s = stateAfter next j (stateAfter next i s) := by
  induction i generalizing s with
  | zero => simp
  | succ i ih => rw [Nat.succ_add, stateAfter_succ, stateAfter_succ, ih]

theorem wordAfter_add (i j : Nat) (s : σ) :
    wordAfter next (i + j) s = wordAfter next j (stateAfter next i s) := by
  rw [wordAfter, stateAfter_add, wordAfter]

/-- A stream of words together with what makes one of them acceptable. -/
structure Search (σ α : Type) where
  next : σ → UInt32 × σ
  accept : UInt32 → Option α

/-- Draws words until one is accepted. -/
def Search.run {σ α : Type} (search : Search σ α) (s : σ) : Option (α × σ) :=
  match search.accept (search.next s).1 with
  | some a => some (a, (search.next s).2)
  | none => search |>.run (search.next s).2
partial_fixpoint

/-- The first accepted word of a stream and the state right after it. -/
def first (s : σ) : Option (α × σ) := Search.run ⟨next, accept⟩ s

theorem first_of_accept {s : σ} {a : α} (h : accept (next s).1 = some a) :
    first next accept s = some (a, (next s).2) := by
  rw [first, Search.run]
  simp only [h]

theorem first_of_reject {s : σ} (h : accept (next s).1 = none) :
    first next accept s = first next accept (next s).2 := by
  rw [first, Search.run]
  simp only [h, first]

/-- Draws words until one is accepted, and gives up after a number of them. -/
def firstAccepted : Nat → σ → Option (α × σ)
  | 0, _ => none
  | patience + 1, s =>
    match accept (next s).1 with
    | some a => some (a, (next s).2)
    | none => firstAccepted patience (next s).2

/-- The search answers with the first accepted word, if it comes within the bound, and leaves the
source right after that word. -/
theorem firstAccepted_eq_some_iff {patience : Nat} {s t : σ} {a : α} :
    firstAccepted next accept patience s = some (a, t) ↔
      ∃ k, k < patience ∧ (∀ j, j < k → accept (wordAfter next j s) = none) ∧
        accept (wordAfter next k s) = some a ∧ stateAfter next (k + 1) s = t := by
  induction patience generalizing s with
  | zero => simp [firstAccepted]
  | succ patience ih =>
    cases h : accept (next s).1 with
    | some b =>
      simp only [firstAccepted, h, Option.some.injEq, Prod.mk.injEq]
      constructor
      · rintro ⟨rfl, rfl⟩
        exact ⟨0, by omega, by simp, by simpa using h, rfl⟩
      · rintro ⟨k, -, hj, hk, ht⟩
        cases k with
        | zero =>
          rw [wordAfter_zero, h] at hk
          exact ⟨Option.some.inj hk, ht⟩
        | succ k =>
          have := hj 0 (by omega)
          rw [wordAfter_zero, h] at this
          contradiction
    | none =>
      simp only [firstAccepted, h, ih]
      constructor
      · rintro ⟨k, hk, hj, ha, ht⟩
        refine ⟨k + 1, by omega, ?_, by simpa using ha, by simpa using ht⟩
        intro j hlt
        cases j with
        | zero => simpa using h
        | succ j => simpa using hj j (by omega)
      · rintro ⟨k, hk, hj, ha, ht⟩
        cases k with
        | zero =>
          rw [wordAfter_zero, h] at ha
          contradiction
        | succ k =>
          refine ⟨k, by omega, ?_, by simpa using ha, by simpa using ht⟩
          intro j hlt
          simpa using hj (j + 1) (by omega)

/-- The search without a bound finds what a search with some bound finds. -/
theorem first_eq_some_iff_bounded {s : σ} {r : α × σ} :
    first next accept s = some r ↔ ∃ patience, firstAccepted next accept patience s = some r := by
  constructor
  · refine Search.run.partial_correctness ⟨next, accept⟩
      (fun s r => ∃ patience, firstAccepted next accept patience s = some r) ?_ s r
    intro search ih s r h
    cases ha : accept (next s).1 with
    | some a => exact ⟨1, by simpa [firstAccepted, ha] using h⟩
    | none =>
      obtain ⟨patience, hp⟩ := ih (next s).2 r (by simpa [ha] using h)
      exact ⟨patience + 1, by simpa [firstAccepted, ha] using hp⟩
  · rintro ⟨patience, h⟩
    induction patience generalizing s with
    | zero => simp [firstAccepted] at h
    | succ patience ih =>
      cases ha : accept (next s).1 with
      | some a =>
        rw [first_of_accept next accept ha]
        simpa [firstAccepted, ha] using h
      | none =>
        rw [first_of_reject next accept ha]
        exact ih (by simpa [firstAccepted, ha] using h)

/-- The search answers with the first accepted word of the stream, and leaves the source right
after that word. -/
theorem first_eq_some_iff {s t : σ} {a : α} :
    first next accept s = some (a, t) ↔
      ∃ k, (∀ j, j < k → accept (wordAfter next j s) = none) ∧
        accept (wordAfter next k s) = some a ∧ stateAfter next (k + 1) s = t := by
  simp only [first_eq_some_iff_bounded, firstAccepted_eq_some_iff]
  constructor
  · rintro ⟨_, k, -, rest⟩
    exact ⟨k, rest⟩
  · rintro ⟨k, rest⟩
    exact ⟨k + 1, k, by omega, rest⟩

/-- The search ends just when the stream has an acceptable word. -/
theorem isSome_first_iff {s : σ} :
    (first next accept s).isSome ↔ ∃ k, (accept (wordAfter next k s)).isSome := by
  constructor
  · intro h
    obtain ⟨⟨a, t⟩, hr⟩ := Option.isSome_iff_exists.mp h
    obtain ⟨k, -, hk, -⟩ := (first_eq_some_iff next accept).mp hr
    exact ⟨k, by simp [hk]⟩
  · rintro ⟨k, hk⟩
    induction k generalizing s with
    | zero =>
      obtain ⟨a, ha⟩ := Option.isSome_iff_exists.mp hk
      rw [wordAfter_zero] at ha
      simp [first_of_accept next accept ha]
    | succ k ih =>
      cases ha : accept (next s).1 with
      | some a => simp [first_of_accept next accept ha]
      | none =>
        rw [first_of_reject next accept ha]
        exact ih hk

end CharacterSheet.Redraw
