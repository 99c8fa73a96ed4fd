/-!
Sources of random numbers. A source yields 32-bit words without end, and integers in an inclusive
range. How an integer is made from words is the source's own affair: it may redraw, clamp, or even
ignore the range. A draw that would never end has no result.
-/
namespace CharacterSheet

/-- States of type σ from which random words and integers are drawn. -/
class RandomSource (σ : Type) where
  /-- The next 32-bit word and the state after it. -/
  nextWord : σ → UInt32 × σ
  /-- An integer for the range between two bounds and the state after it, if the draw ends. -/
  randomInt : Int32 → Int32 → σ → Option (Int32 × σ)

/-- A computation that draws from a source and may fail to end. -/
abbrev Draw (σ : Type) : Type → Type := StateT σ Option

namespace Draw

variable {σ : Type} [RandomSource σ]

/-- Draws one word; this always ends. -/
def word : Draw σ UInt32 := fun s => some (RandomSource.nextWord s)

/-- Draws one integer for an inclusive range. -/
def int (lo hi : Int32) : Draw σ Int32 := RandomSource.randomInt lo hi

/-- Draws the same range a number of times and puts the results, in order, after the reverse of a
list. -/
def intsAfter (lo hi : Int32) : Nat → List Int32 → σ → Option (List Int32 × σ)
  | 0, drawn, s => some (drawn.reverse, s)
  | count + 1, drawn, s =>
    match RandomSource.randomInt lo hi s with
    | some (value, s) => intsAfter lo hi count (value :: drawn) s
    | none => none

/-- Draws the same range a number of times and lists the results in order. -/
def ints (lo hi : Int32) (count : Nat) : Draw σ (List Int32) := intsAfter lo hi count []

end Draw

end CharacterSheet
