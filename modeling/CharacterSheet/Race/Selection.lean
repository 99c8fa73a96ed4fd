import CharacterSheet.Race.Basic
import CharacterSheet.Random.Source

/-!
Choosing a race by its number, or at random when the number is negative. A random choice draws
once and always finds a race of the pool, even from a source that ignores its bounds.
-/
namespace CharacterSheet

namespace RaceKind

/-- The race of the pool at a place, or the human race if there is no such place. -/
def ofPool (place : Int32) : RaceKind :=
  if place < 0 then human else randomPool.getD place.toInt.toNat human

def random {σ : Type} [RandomSource σ] : Draw σ RaceKind := do
  let place ← Draw.int 0 (Int32.ofNat (randomPool.length - 1))
  pure (ofPool place)

def randomId {σ : Type} [RandomSource σ] : Draw σ Int32 := do
  let kind ← random
  pure kind.id

end RaceKind

namespace Race

/-- The race with a number, if there is one; a negative number stands for a race of the pool drawn
at random. -/
def select {σ : Type} [RandomSource σ] (identifier : Int32) : Draw σ (Option Race) := do
  let id ← if identifier < 0 then RaceKind.randomId else pure identifier
  pure ((RaceKind.ofId? id).map ofKind)

end Race
end CharacterSheet
