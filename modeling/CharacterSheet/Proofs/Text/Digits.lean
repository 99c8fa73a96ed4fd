import CharacterSheet.Text.Digit
import Mathlib.Data.Nat.Notation
import Mathlib.Data.List.Basic

/-!
The digits of a number spell that number, with no zero in front, and digits at the start of a text
are all taken from it.
-/
namespace CharacterSheet.Digit

/-- The text does not go on with a digit. -/
def Stops (cs : List Char) : Prop := ∀ c ∈ cs.head?, decimal? c = none

lemma takeDecimals_of_stops {cs : List Char} (h : Stops cs) : takeDecimals cs = ([], cs) := by
  cases cs with
  | nil => rfl
  | cons c cs => simp [takeDecimals, h c rfl]

lemma takeDecimals_append (digits : List (Fin 10)) {rest : List Char} (h : Stops rest) :
    takeDecimals (digits.map char ++ rest) = (digits, rest) := by
  induction digits with
  | nil => exact takeDecimals_of_stops h
  | cons d digits ih => simp [takeDecimals, ih]

@[simp] lemma ofDecimals_nil : ofDecimals [] = 0 := rfl

@[simp] lemma ofDecimals_append_singleton (digits : List (Fin 10)) (d : Fin 10) :
    ofDecimals (digits ++ [d]) = 10 * ofDecimals digits + d := by
  simp [ofDecimals, value]

lemma ofDecimals_reverse_decimalsReversed (n : ℕ) :
    ofDecimals (decimalsReversed n).reverse = n := by
  induction n using decimalsReversed.induct with
  | case1 => simp [decimalsReversed]
  | case2 n ih =>
    rw [decimalsReversed, List.reverse_cons, ofDecimals_append_singleton, ih, Fin.val_ofNat]
    omega

lemma ofDecimals_decimals (n : ℕ) : ofDecimals (decimals n) = n := by
  rw [decimals]
  split_ifs with h
  · rw [h]
    rfl
  · exact ofDecimals_reverse_decimalsReversed n

lemma getLast?_decimalsReversed_ne (n : ℕ) : (decimalsReversed n).getLast? ≠ some 0 := by
  induction n using decimalsReversed.induct with
  | case1 => simp [decimalsReversed]
  | case2 n ih =>
    rw [decimalsReversed, List.getLast?_cons]
    cases hrest : (decimalsReversed ((n + 1) / 10)).getLast? with
    | some d => rwa [hrest] at ih
    | none =>
      have hdiv : (n + 1) / 10 = 0 := by
        rw [← ofDecimals_reverse_decimalsReversed ((n + 1) / 10),
          List.getLast?_eq_none_iff.mp hrest]
        rfl
      simp only [Option.getD_none, ne_eq, Option.some_inj, Fin.ext_iff, Fin.val_ofNat]
      change ¬ (n + 1) % 10 = 0
      omega

/-- The digits of a whole number: at least one, and no zero in front of others. -/
structure IsWhole (digits : List (Fin 10)) : Prop where
  ne_nil : digits ≠ []
  eq_nil_of_zero : ∀ rest, digits = 0 :: rest → rest = []

lemma isWhole_cons {d : Fin 10} {digits : List (Fin 10)} (h : d = 0 → digits = []) :
    IsWhole (d :: digits) := by
  refine ⟨List.cons_ne_nil _ _, ?_⟩
  rintro _ ⟨⟩
  exact h rfl

lemma isWhole_decimals (n : ℕ) : IsWhole (decimals n) := by
  rw [decimals]
  split_ifs with h
  · exact ⟨List.cons_ne_nil _ _, fun _ h => (List.cons.inj h).2.symm⟩
  · refine ⟨fun hnil => ?_, fun rest hrest => ?_⟩
    · have hvalue := ofDecimals_reverse_decimalsReversed n
      rw [hnil] at hvalue
      exact h hvalue.symm
    · have hhead := congrArg List.head? hrest
      rw [List.head?_reverse] at hhead
      exact absurd hhead (getLast?_decimalsReversed_ne n)

end CharacterSheet.Digit
