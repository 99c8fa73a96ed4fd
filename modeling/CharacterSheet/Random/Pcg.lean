import CharacterSheet.Random.Uniform

/-!
The permuted congruential generator with 64 bits of state and 32-bit words: a linear congruence
modulo 2^64 moves the state, and each word is a shifted mixture of the new state rotated by its
own top bits.
-/
namespace CharacterSheet

/-- The state of a permuted congruential generator. -/
structure Pcg where
  state : UInt64
  deriving DecidableEq, Repr, Inhabited

namespace Pcg

/-- The factor of the linear congruence. -/
def multiplier : UInt64 := 6364136223846793005

/-- The summand of the linear congruence used for draws. -/
def increment : UInt64 := 1442695040888963407

/-- The linear congruence, modulo 2^64. -/
def step (increment state : UInt64) : UInt64 := state * multiplier + increment

/-- A word rotated to the right by an amount below 32. -/
def rotateRight (word amount : UInt32) : UInt32 :=
  (word >>> amount) ||| (word <<< (32 - amount))

/-- The word made from a state. -/
def output (state : UInt64) : UInt32 :=
  rotateRight (((state >>> 18) ^^^ state) >>> 27).toUInt32 (state >>> 59).toUInt32

/-- Moves the state once and yields the word of the new state. -/
def next (g : Pcg) : UInt32 × Pcg :=
  (output (step increment g.state), ⟨step increment g.state⟩)

instance : RandomSource Pcg := Uniform.source next

end Pcg
end CharacterSheet
