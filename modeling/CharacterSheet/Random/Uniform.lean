import CharacterSheet.Random.Redraw
import CharacterSheet.Random.Source

/-!
Exactly uniform integers by remainder. The 2^32 words are cut to the largest multiple of the
number of integers in the range; a word below the cut is mapped by its remainder, and a word from
the uneven tail is discarded and drawn again. Ranges of 32-bit bounds hold up to 2^32 integers, so
the arithmetic is on 64-bit integers and words.
-/
namespace CharacterSheet.Uniform

/-- The number of integers between two bounds, both included, as a signed integer. -/
def width (lo hi : Int32) : Int64 := hi.toInt64 - lo.toInt64 + 1

/-- The number of integers between two bounds. -/
def span (lo hi : Int32) : UInt64 := (width lo hi).toUInt64

/-- The number of words that can be shared out evenly among a span. -/
def zone (span : UInt64) : UInt64 := ((1 : UInt64) <<< 32) / span * span

/-- The place in a span that a word stands for. -/
def offset (span : UInt64) (word : UInt32) : UInt64 := word.toUInt64 % span

/-- The integer at a place counted from a lower bound. -/
def shift (lo : Int32) (offset : UInt64) : Int64 := lo.toInt64 + offset.toInt64

/-- What a word stands for in a range, unless it lies in the uneven tail. -/
def accept (lo hi : Int32) (word : UInt32) : Option Int32 :=
  if word.toUInt64 < zone (span lo hi) then
    some (shift lo (offset (span lo hi) word)).toInt32
  else
    none

/-- An integer between two bounds drawn from a stream of words. A range of at most one integer
gives its lower bound and draws nothing. -/
def int {σ : Type} (next : σ → UInt32 × σ) (lo hi : Int32) (s : σ) : Option (Int32 × σ) :=
  if hi ≤ lo then some (lo, s) else Redraw.first next (accept lo hi) s

section

variable {σ : Type} (next : σ → UInt32 × σ)

theorem int_of_le {lo hi : Int32} (h : hi ≤ lo) (s : σ) : int next lo hi s = some (lo, s) := by
  simp [int, h]

theorem int_of_lt {lo hi : Int32} (h : lo < hi) (s : σ) :
    int next lo hi s = Redraw.first next (accept lo hi) s := by
  simp [int, Int32.not_le.mpr h]

/-- The source that draws its integers by remainder from a stream of words. -/
@[reducible] def source : RandomSource σ := ⟨next, int next⟩

end

example : (zone 11, zone 3, zone 4294967296) = (4294967292, 4294967295, 4294967296) := by decide

example : accept (-1) 1 4294967295 = none ∧ accept (-1) 1 4294967294 = some 1 := by
  decide +kernel

end CharacterSheet.Uniform
