import CharacterSheet.Random.Pcg
import CharacterSheet.Random.Widening

/-!
A seeded stream of words from the ChaCha block function with twelve rounds. The sixteen words of a
block depend on a key of eight words and on a 64-bit counter that starts at zero and grows by one
with every block; the stream number is zero. Integers are drawn by multiplication.
-/
namespace CharacterSheet

namespace ChaCha

/-- Four words, one row of the square that a block is computed in. -/
structure Row where
  a : UInt32
  b : UInt32
  c : UInt32
  d : UInt32
  deriving DecidableEq, Repr

namespace Row

/-- Combines two rows place by place. -/
def zip (f : UInt32 → UInt32 → UInt32) (x y : Row) : Row :=
  ⟨f x.a y.a, f x.b y.b, f x.c y.c, f x.d y.d⟩

/-- Changes every word of a row. -/
def map (f : UInt32 → UInt32) (x : Row) : Row := ⟨f x.a, f x.b, f x.c, f x.d⟩

/-- The row moved one place to the left, around the end. -/
def turn (x : Row) : Row := ⟨x.b, x.c, x.d, x.a⟩

/-- The words of a row in order. -/
def words (x : Row) : List UInt32 := [x.a, x.b, x.c, x.d]

@[simp] theorem length_words (x : Row) : x.words.length = 4 := rfl

end Row

/-- Sixteen words as four rows. -/
structure Square where
  top : Row
  upper : Row
  lower : Row
  bottom : Row
  deriving DecidableEq, Repr

/-- A word rotated to the left by an amount between 1 and 31. -/
def rotateLeft (amount word : UInt32) : UInt32 :=
  (word <<< amount) ||| (word >>> (32 - amount))

namespace Square

/-- The quarter round on all four columns at once. -/
def mix (s : Square) : Square :=
  let top := s.top.zip (· + ·) s.upper
  let bottom := (s.bottom.zip (· ^^^ ·) top).map (rotateLeft 16)
  let lower := s.lower.zip (· + ·) bottom
  let upper := (s.upper.zip (· ^^^ ·) lower).map (rotateLeft 12)
  let top := top.zip (· + ·) upper
  let bottom := (bottom.zip (· ^^^ ·) top).map (rotateLeft 8)
  let lower := lower.zip (· + ·) bottom
  let upper := (upper.zip (· ^^^ ·) lower).map (rotateLeft 7)
  ⟨top, upper, lower, bottom⟩

/-- Turns the diagonals into columns. -/
def skew (s : Square) : Square :=
  ⟨s.top, s.upper.turn, s.lower.turn.turn, s.bottom.turn.turn.turn⟩

/-- Turns the columns back into diagonals. -/
def unskew (s : Square) : Square :=
  ⟨s.top, s.upper.turn.turn.turn, s.lower.turn.turn, s.bottom.turn⟩

@[simp] theorem unskew_skew (s : Square) : s.skew.unskew = s := rfl

/-- A round on the columns and a round on the diagonals. -/
def doubleRound (s : Square) : Square := s.mix.skew.mix.unskew

/-- The sum of two squares, place by place modulo 2^32. -/
def add (s t : Square) : Square :=
  ⟨s.top.zip (· + ·) t.top, s.upper.zip (· + ·) t.upper, s.lower.zip (· + ·) t.lower,
    s.bottom.zip (· + ·) t.bottom⟩

/-- The words of a square, row by row. -/
def words (s : Square) : List UInt32 :=
  s.top.words ++ s.upper.words ++ s.lower.words ++ s.bottom.words

@[simp] theorem length_words (s : Square) : s.words.length = 16 := rfl

end Square

/-- A key of eight words. -/
structure Key where
  first : Row
  second : Row
  deriving DecidableEq, Repr

/-- The fixed words of the first row, the text expand 32-byte k in little-endian order. -/
def constants : Row := ⟨0x61707865, 0x3320646E, 0x79622D32, 0x6B206574⟩

/-- The square that a block starts from. -/
def Key.start (key : Key) (counter : UInt64) : Square :=
  ⟨constants, key.first, key.second, ⟨counter.toUInt32, (counter >>> 32).toUInt32, 0, 0⟩⟩

/-- The block of a counter: twelve rounds, and the start added to their result. -/
def Key.block (key : Key) (counter : UInt64) : Square :=
  let start := key.start counter
  (Nat.repeat Square.doubleRound 6 start).add start

/-- The summand of the congruence that stretches a seed to a key. -/
def seedIncrement : UInt64 := 11634580027462260723

/-- The key made from a seed: the words of eight successive states of the congruence. -/
def Key.ofSeed (seed : UInt64) : Key :=
  let s1 := Pcg.step seedIncrement seed
  let s2 := Pcg.step seedIncrement s1
  let s3 := Pcg.step seedIncrement s2
  let s4 := Pcg.step seedIncrement s3
  let s5 := Pcg.step seedIncrement s4
  let s6 := Pcg.step seedIncrement s5
  let s7 := Pcg.step seedIncrement s6
  let s8 := Pcg.step seedIncrement s7
  ⟨⟨Pcg.output s1, Pcg.output s2, Pcg.output s3, Pcg.output s4⟩,
    ⟨Pcg.output s5, Pcg.output s6, Pcg.output s7, Pcg.output s8⟩⟩

end ChaCha

/-- A place in the stream of words of a key: the counter of the current block, its words, and the
number of them already drawn. -/
structure ChaCha where
  key : ChaCha.Key
  counter : UInt64
  block : ChaCha.Square
  drawn : Fin 16
  deriving DecidableEq, Repr

namespace ChaCha

/-- The stream of a seed, from its beginning. -/
def ofSeed (seed : UInt64) : ChaCha :=
  let key := Key.ofSeed seed
  ⟨key, 0, key.block 0, ⟨0, by decide⟩⟩

/-- The next word of the stream. -/
def next (s : ChaCha) : UInt32 × ChaCha :=
  (s.block.words[s.drawn],
    if h : s.drawn.val + 1 < 16 then
      ⟨s.key, s.counter, s.block, ⟨s.drawn.val + 1, h⟩⟩
    else
      ⟨s.key, s.counter + 1, s.key.block (s.counter + 1), ⟨0, by decide⟩⟩)

instance : RandomSource ChaCha := Widening.source next

end ChaCha
end CharacterSheet
