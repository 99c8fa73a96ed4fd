import CharacterSheet.Random.Source

/-!
A source that replays a list of integers and starts again when it is used up. A value outside the
requested range is moved to the nearer bound. An empty list stands for zero, or for the lower
bound.
-/
namespace CharacterSheet

/-- The values to replay and the number of them taken so far. -/
structure Script where
  values : List Int32
  cursor : UInt64
  deriving DecidableEq, Repr

namespace Script

/-- A script that starts with its first value. -/
def ofList (values : List Int32) : Script := ⟨values, 0⟩

instance : Inhabited Script := ⟨ofList []⟩

/-- The place in the list of the value that is due. -/
def position (s : Script) : Nat := s.cursor.toNat % max s.values.length 1

/-- Takes the value that is due, if there are any values. -/
def take? (s : Script) : Option (Int32 × Script) :=
  s.values[s.position]?.map fun value => (value, ⟨s.values, s.cursor + 1⟩)

/-- The value moved to the nearer bound when it is outside a range. -/
def clamp (lo hi value : Int32) : Int32 :=
  if value < lo then lo else if hi < value then hi else value

/-- The value that is due, read as a word; zero if there are no values. -/
def next (s : Script) : UInt32 × Script :=
  match s.take? with
  | some (value, rest) => (value.toUInt32, rest)
  | none => (0, s)

/-- The value that is due, moved into the range. A range of at most one integer gives its lower
bound and takes no value. -/
def int (lo hi : Int32) (s : Script) : Int32 × Script :=
  if hi ≤ lo then
    (lo, s)
  else
    match s.take? with
    | some (value, rest) => (clamp lo hi value, rest)
    | none => (lo, s)

instance : RandomSource Script := ⟨next, fun lo hi s => some (int lo hi s)⟩

example : (Draw.ints 8 18 3 (ofList [15, 99])).map (·.1) = some [15, 18, 15] := by decide

end Script
end CharacterSheet
