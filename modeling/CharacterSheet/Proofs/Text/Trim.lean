import CharacterSheet.Text.Blank
import Mathlib.Data.List.TakeWhile

/-!
A text as a word with blanks around it. Trimming finds the word, which is the only one that starts
and ends with other characters than blanks; more blanks around the text do not change it.
-/
namespace CharacterSheet

/-- What stands in front of a text is dropped up to the first character of another kind. -/
lemma dropWhile_append_of_head {p : Char → Bool} {before cs : List Char}
    (hbefore : ∀ c ∈ before, p c) (hcs : ∀ c ∈ cs.head?, ¬ p c) :
    (before ++ cs).dropWhile p = cs := by
  rw [List.dropWhile_append_of_pos hbefore]
  cases cs with
  | nil => rfl
  | cons c cs => exact List.dropWhile_cons_of_neg (hcs c rfl)

namespace Blank

/-- All characters of a text are blank. -/
def Blanks (cs : List Char) : Prop := ∀ c ∈ cs, isBlank c

/-- A text is a word between blanks, with no blank at either end of the word. -/
structure Surrounds (cs word : List Char) : Prop where
  parts : ∃ before after, cs = before ++ (word ++ after) ∧ Blanks before ∧ Blanks after
  first : ∀ c ∈ word.head?, ¬ isBlank c
  last : ∀ c ∈ word.getLast?, ¬ isBlank c

variable {cs word before after : List Char}

lemma Blanks.append (hbefore : Blanks before) (hafter : Blanks after) : Blanks (before ++ after) :=
  List.forall_mem_append.mpr ⟨hbefore, hafter⟩

lemma Blanks.reverse (h : Blanks cs) : Blanks cs.reverse := fun c hc => h c (List.mem_reverse.mp hc)

lemma not_isAlpha_of_isBlank {c : Char} (h : isBlank c) : ¬ c.isAlpha := by
  simp only [isBlank, intervals, List.any_cons, List.any_nil, Bool.or_false, Bool.or_eq_true,
    Bool.and_eq_true, decide_eq_true_eq] at h
  have hletter : c.isAlpha = (decide ('A'.val ≤ c.val ∧ c.val ≤ 'Z'.val) ||
      (decide ('a'.val ≤ c.val) && decide (c.val ≤ 'z'.val))) := rfl
  simp only [hletter, Bool.or_eq_true, Bool.and_eq_true, decide_eq_true_eq,
    UInt32.le_iff_toNat_le, Char.toNat] at h ⊢
  change ¬ (65 ≤ c.val.toNat ∧ c.val.toNat ≤ 90 ∨ 97 ≤ c.val.toNat ∧ c.val.toNat ≤ 122)
  omega

lemma blanks_takeWhile (cs : List Char) : Blanks (cs.takeWhile isBlank) :=
  fun _ hc => List.mem_takeWhile_imp hc

lemma not_isBlank_of_mem_head?_dropWhile (cs : List Char) :
    ∀ c ∈ (cs.dropWhile isBlank).head?, ¬ isBlank c := by
  intro c hc
  have h := List.head?_dropWhile_not isBlank cs
  rw [Option.mem_def.mp hc] at h
  simpa using h

lemma Surrounds.trim_eq (h : Surrounds cs word) : trim cs = word := by
  obtain ⟨⟨before, after, rfl, hbefore, hafter⟩, hfirst, hlast⟩ := h
  cases word with
  | nil =>
    have hnil : trimStart (before ++ after) = [] :=
      List.dropWhile_eq_nil_iff.mpr (hbefore.append hafter)
    rw [List.nil_append, trim, hnil]
    rfl
  | cons c word =>
    have hstart : trimStart (before ++ (c :: word ++ after)) = c :: word ++ after :=
      dropWhile_append_of_head hbefore hfirst
    have hend : ((c :: word).reverse.head?) = (c :: word).getLast? := List.head?_reverse
    rw [trim, hstart, trimEnd, List.reverse_append,
      dropWhile_append_of_head hafter.reverse (hend ▸ hlast), List.reverse_reverse]

lemma surrounds_trim (cs : List Char) : Surrounds cs (trim cs) := by
  have hstart := List.takeWhile_append_dropWhile (p := isBlank) (l := cs)
  have hend := List.takeWhile_append_dropWhile (p := isBlank) (l := (trimStart cs).reverse)
  have hmid : trim cs ++ ((trimStart cs).reverse.takeWhile isBlank).reverse = trimStart cs := by
    rw [trim, trimEnd, ← List.reverse_append, hend, List.reverse_reverse]
  refine ⟨⟨cs.takeWhile isBlank, ((trimStart cs).reverse.takeWhile isBlank).reverse, ?_,
    blanks_takeWhile _, (blanks_takeWhile _).reverse⟩, fun c hc => ?_, fun c hc => ?_⟩
  · rw [hmid]
    exact hstart.symm
  · apply not_isBlank_of_mem_head?_dropWhile cs c
    change c ∈ (trimStart cs).head?
    rw [← hmid, List.head?_append, Option.mem_def.mp hc]
    rfl
  · apply not_isBlank_of_mem_head?_dropWhile (trimStart cs).reverse c
    rwa [trim, trimEnd, List.getLast?_reverse] at hc

/-- More blanks around a text do not change its word. -/
lemma Surrounds.pad (h : Surrounds cs word) (hbefore : Blanks before) (hafter : Blanks after) :
    Surrounds (before ++ cs ++ after) word := by
  obtain ⟨⟨start, rest, rfl, hstart, hrest⟩, hfirst, hlast⟩ := h
  refine ⟨⟨before ++ start, rest ++ after, ?_, hbefore.append hstart, hrest.append hafter⟩, hfirst,
    hlast⟩
  simp only [List.append_assoc]

/-- What is not blank belongs to the word. -/
lemma Surrounds.mem_word (h : Surrounds cs word) {c : Char} (hc : c ∈ cs) (hblank : ¬ isBlank c) :
    c ∈ word := by
  obtain ⟨before, after, rfl, hbefore, hafter⟩ := h.parts
  rcases List.mem_append.mp hc with hc | hc
  · exact absurd (hbefore c hc) hblank
  · rcases List.mem_append.mp hc with hc | hc
    · exact hc
    · exact absurd (hafter c hc) hblank

end Blank
end CharacterSheet
