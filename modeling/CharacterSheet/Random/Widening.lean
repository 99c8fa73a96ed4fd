import CharacterSheet.Random.Redraw
import CharacterSheet.Random.Source

/-!
Exactly uniform integers by multiplication. A word times the size of the range is a 64-bit product
whose high half is the answer; the draw is repeated until the low half is small enough for every
answer to come from the same number of words. All arithmetic is on 32-bit and 64-bit words.
-/
namespace CharacterSheet.Widening

/-- The number of zero bits above the highest one bit of a word. -/
def leadingZeros (word : UInt32) : Nat := if word = 0 then 32 else 31 - word.toNat.log2

/-- The number of integers between two bounds, with 2^32 of them written as zero. -/
def range (lo hi : Int32) : UInt32 := (hi - lo + 1).toUInt32

/-- The largest low half that is accepted. -/
def zone (range : UInt32) : UInt32 := (range <<< UInt32.ofNat (leadingZeros range)) - 1

/-- What a word stands for between two bounds, if its low half is in the zone. -/
def accept (lo hi : Int32) (word : UInt32) : Option Int32 :=
  let range := range lo hi
  if range = 0 then
    some word.toInt32
  else
    let product := word.toUInt64 * range.toUInt64
    if product.toUInt32 ≤ zone range then
      some (lo + (product >>> 32).toUInt32.toInt32)
    else
      none

/-- An integer between two bounds drawn from a stream of words. A range of at most one integer
gives its lower bound and draws nothing. -/
def int {σ : Type} (next : σ → UInt32 × σ) (lo hi : Int32) (s : σ) : Option (Int32 × σ) :=
  if hi ≤ lo then some (lo, s) else Redraw.first next (accept lo hi) s

theorem int_of_le {σ : Type} (next : σ → UInt32 × σ) {lo hi : Int32} (h : hi ≤ lo) (s : σ) :
    int next lo hi s = some (lo, s) := by
  simp [int, h]

/-- The source that draws its integers by multiplication from a stream of words. -/
@[reducible] def source {σ : Type} (next : σ → UInt32 × σ) : RandomSource σ := ⟨next, int next⟩

example : accept 8 18 0xFFFFFFFF = none ∧ accept 8 18 0x80000000 = some 13 := by decide

end CharacterSheet.Widening
