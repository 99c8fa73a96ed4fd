import CharacterSheet.Text.AsciiCase
import Mathlib.Data.List.Forall2

/-!
Texts that differ in the case of the letters A to Z only, letter by letter. Folding tells no two of
them apart, and tells all other texts apart.
-/
namespace CharacterSheet.AsciiCase

/-- The capital letter at a place in the alphabet. -/
def capital (i : Fin 26) : Char := Char.ofNat ('A'.toNat + i)

/-- The small letter at a place in the alphabet. -/
def small (i : Fin 26) : Char := Char.ofNat ('a'.toNat + i)

/-- Two characters are equal, or the two forms of a letter from A to Z. -/
inductive Alike : Char → Char → Prop where
  | refl (c : Char) : Alike c c
  | lowered (i : Fin 26) : Alike (capital i) (small i)
  | raised (i : Fin 26) : Alike (small i) (capital i)

lemma Alike.symm {c d : Char} (h : Alike c d) : Alike d c := by
  cases h with
  | refl => exact .refl c
  | lowered i => exact .raised i
  | raised i => exact .lowered i

lemma toLower_capital (i : Fin 26) : (capital i).toLower = small i := by decide +revert

lemma toLower_small (i : Fin 26) : (small i).toLower = small i := by decide +revert

lemma small_injective {i j : Fin 26} (h : small i = small j) : i = j := by decide +revert

lemma toLower_cases (c : Char) : (∃ i, c = capital i) ∨ c.toLower = c := by
  by_cases h : c.val ≥ 'A'.val ∧ c.val ≤ 'Z'.val
  · obtain ⟨hA, hZ⟩ := h
    have hlo : 65 ≤ c.toNat := UInt32.le_iff_toNat_le.mp hA
    have hhi : c.toNat ≤ 90 := UInt32.le_iff_toNat_le.mp hZ
    refine .inl ⟨⟨c.toNat - 65, by omega⟩, ?_⟩
    have hplace : 'A'.toNat + (c.toNat - 65) = c.toNat := by
      change 65 + (c.toNat - 65) = c.toNat
      omega
    rw [capital, hplace, Char.ofNat_toNat]
  · right
    exact dif_neg h

lemma toLower_eq_iff {c d : Char} : c.toLower = d.toLower ↔ Alike c d := by
  constructor
  · intro h
    rcases toLower_cases c with ⟨i, rfl⟩ | hc <;> rcases toLower_cases d with ⟨j, rfl⟩ | hd
    · rw [toLower_capital, toLower_capital] at h
      rw [small_injective h]
      exact .refl _
    · rw [toLower_capital, hd] at h
      rw [← h]
      exact .lowered i
    · rw [hc, toLower_capital] at h
      rw [h]
      exact .raised j
    · rw [hc, hd] at h
      rw [h]
      exact .refl d
  · rintro (_ | i | i)
    · rfl
    · rw [toLower_capital, toLower_small]
    · rw [toLower_capital, toLower_small]

/-- Texts agree up to case just when they do so letter by letter. -/
theorem same_iff_forall₂ {cs ds : List Char} : Same cs ds ↔ List.Forall₂ Alike cs ds := by
  have hcase : (fun c d : Char => c.toLower = d.toLower) = Alike :=
    funext fun _ => funext fun _ => propext toLower_eq_iff
  rw [Same, fold, fold, ← List.forall₂_eq_eq_eq, List.forall₂_map_left_iff,
    List.forall₂_map_right_iff, hcase]

/-- Every character of a text has its like in a text that agrees with it up to case. -/
lemma Same.exists_alike {cs ds : List Char} (h : Same cs ds) {c : Char} (hc : c ∈ cs) :
    ∃ d ∈ ds, Alike c d := by
  have hfold : c.toLower ∈ fold ds := h ▸ List.mem_map_of_mem hc
  obtain ⟨d, hd, hcd⟩ := List.mem_map.mp hfold
  exact ⟨d, hd, toLower_eq_iff.mp hcd.symm⟩

/-- A letter from A to Z, in either case, is like no other character. -/
lemma Alike.isAlpha {c d : Char} (h : Alike c d) (hd : d.isAlpha) : c.isAlpha := by
  cases h with
  | refl => exact hd
  | lowered i => decide +revert
  | raised i => decide +revert

/-- A character that is no letter from A to Z is like itself only. -/
lemma Alike.eq_of_not_isAlpha {c d : Char} (h : Alike c d) (hd : ¬ d.isAlpha) : c = d := by
  cases h with
  | refl => rfl
  | lowered i => exact absurd (by decide +revert) hd
  | raised i => exact absurd (by decide +revert) hd

end CharacterSheet.AsciiCase
