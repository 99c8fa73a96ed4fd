/-!
JSON values as they are written: an object is the list of its members, in which names may be
repeated, and a number keeps the form in which it was spelled.
-/
namespace CharacterSheet.Json

/-- A spelled number: its sign, whole part, digits after the point, and power of ten. -/
structure Number where
  negative : Bool
  whole : Nat
  fraction : List (Fin 10)
  exponent : Option Int
  deriving DecidableEq, Repr

namespace Number

/-- A whole number written with digits only. -/
def ofNat (n : Nat) : Number := ⟨false, n, [], none⟩

/-- The value of a number written with digits only. -/
def natural? : Number → Option Nat
  | ⟨false, n, [], none⟩ => some n
  | _ => none

@[simp] theorem natural?_ofNat (n : Nat) : (ofNat n).natural? = some n := rfl

theorem natural?_eq_some_iff {x : Number} {n : Nat} : x.natural? = some n ↔ x = ofNat n := by
  obtain ⟨negative, whole, fraction, exponent⟩ := x
  cases negative <;> cases fraction <;> cases exponent <;> simp [natural?, ofNat]

end Number

/-- What a string literal says. A literal in which an escape names half of a surrogate pair is
well formed but has no text. -/
abbrev Literal := Option String

inductive Value where
  | null
  | bool (b : Bool)
  | number (n : Number)
  | string (s : Literal)
  | array (items : List Value)
  | object (members : List (Literal × Value))
  deriving Repr, Inhabited

end CharacterSheet.Json
