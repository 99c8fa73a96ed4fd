import CharacterSheet.Random.Source

/-!
A source behind one more layer of indirection. Every request is passed on to the source inside, so
a source with its own way of drawing integers keeps it however many layers there are.
-/
namespace CharacterSheet

/-- A source reached through another layer. -/
structure Forwarded (σ : Type) where
  inner : σ
  deriving DecidableEq, Repr

namespace Forwarded

instance {σ : Type} [RandomSource σ] : RandomSource (Forwarded σ) where
  nextWord s := ((RandomSource.nextWord s.inner).1, ⟨(RandomSource.nextWord s.inner).2⟩)
  randomInt lo hi s :=
    (RandomSource.randomInt lo hi s.inner).map fun (value, rest) => (value, ⟨rest⟩)

end Forwarded
end CharacterSheet
