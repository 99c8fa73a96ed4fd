import CharacterSheet.Proofs.Random.Series
import CharacterSheet.Random.Script

/-! Scripted draws: they always end, and what a script says is moved between the bounds. -/
namespace CharacterSheet.Script

lemma clamp_mem {lo hi : Int32} (h : lo ≤ hi) (value : Int32) :
    lo ≤ clamp lo hi value ∧ clamp lo hi value ≤ hi := by
  rw [clamp]
  split
  · exact ⟨Int32.le_refl lo, h⟩
  · split
    · exact ⟨h, Int32.le_refl hi⟩
    · exact ⟨Int32.not_lt.mp ‹_›, Int32.not_lt.mp ‹_›⟩

lemma int_mem {lo hi : Int32} (h : lo ≤ hi) (s : Script) :
    lo ≤ (int lo hi s).1 ∧ (int lo hi s).1 ≤ hi := by
  rw [int]
  split
  · exact ⟨Int32.le_refl lo, h⟩
  · split
    · exact clamp_mem h _
    · exact ⟨Int32.le_refl lo, h⟩

lemma ends : RandomSource.Ends Script := fun _ _ _ => rfl

lemma keepsBounds : RandomSource.KeepsBounds Script := by
  intro lo hi s v t hle h
  have hint : int lo hi s = (v, t) := Option.some.inj h
  have hmem := int_mem hle s
  rwa [hint] at hmem

end CharacterSheet.Script
