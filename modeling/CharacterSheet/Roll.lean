import CharacterSheet.Config
import CharacterSheet.Random.Source
import CharacterSheet.Sheet

/-!
Rolled scores. One roll draws one integer; an integer that is no score counts as the lower bound
of the range, so every source gives scores. A sheet is rolled ability by ability in canonical
order.
-/
namespace CharacterSheet

/-- The drawn integer as a score, or another score if it is none. -/
def scoreOr (fallback : UInt8) (drawn : Int32) : UInt8 :=
  if 0 ≤ drawn ∧ drawn ≤ 255 then UInt8.ofNat drawn.toInt.toNat else fallback

namespace AbilityScore

variable {σ : Type} [RandomSource σ]

/-- Rolls a score within a range, not proficient. -/
def rollIn (range : ScoreRange) : Draw σ AbilityScore := do
  let drawn ← Draw.int range.min.toUInt32.toInt32 range.max.toUInt32.toInt32
  pure ⟨scoreOr range.min drawn, false⟩

def roll : Draw σ AbilityScore := rollIn ScoreRange.standard

end AbilityScore

namespace Sheet

variable {σ : Type} [RandomSource σ]

/-- Rolls every ability within a range, in canonical order; the bonus is zero. -/
def rollIn (range : ScoreRange) : Draw σ Sheet := do
  let str ← AbilityScore.rollIn range
  let dex ← AbilityScore.rollIn range
  let con ← AbilityScore.rollIn range
  let int ← AbilityScore.rollIn range
  let wis ← AbilityScore.rollIn range
  let cha ← AbilityScore.rollIn range
  pure ⟨0, str, dex, con, int, wis, cha⟩

def roll : Draw σ Sheet := rollIn ScoreRange.standard

end Sheet
end CharacterSheet
