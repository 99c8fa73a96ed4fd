/-!
Digits in texts: their values, the numbers they spell, and the digits of a number.
-/
namespace CharacterSheet.Digit

def decimal? (c : Char) : Option (Fin 10) :=
  if '0' ≤ c ∧ c ≤ '9' then some (Fin.ofNat 10 (c.toNat - '0'.toNat)) else none

def char (d : Fin 10) : Char := Char.ofNat ('0'.toNat + d)

@[simp] theorem decimal?_char (d : Fin 10) : decimal? (char d) = some d := by decide +revert

/-- The value of a digit to the base sixteen, in either case of its letters. -/
def hex? (c : Char) : Option (Fin 16) :=
  if '0' ≤ c ∧ c ≤ '9' then some (Fin.ofNat 16 (c.toNat - '0'.toNat))
  else if 'a' ≤ c ∧ c ≤ 'f' then some (Fin.ofNat 16 (c.toNat - 'a'.toNat + 10))
  else if 'A' ≤ c ∧ c ≤ 'F' then some (Fin.ofNat 16 (c.toNat - 'A'.toNat + 10))
  else none

/-- The last digit of a number to the base sixteen. -/
def lastHex (n : Nat) : Fin 16 := Fin.ofNat 16 n

/-- The character of a digit to the base sixteen, with small letters. -/
def hexChar (d : Fin 16) : Char :=
  if d < 10 then Char.ofNat ('0'.toNat + d) else Char.ofNat ('a'.toNat + d - 10)

@[simp] theorem hex?_hexChar (d : Fin 16) : hex? (hexChar d) = some d := by decide +revert

/-- The decimal digits at the start of a text, and the rest of it. -/
def takeDecimals : List Char → List (Fin 10) × List Char
  | [] => ([], [])
  | c :: cs =>
    match decimal? c with
    | some d => (d :: (takeDecimals cs).1, (takeDecimals cs).2)
    | none => ([], c :: cs)

/-- The number spelled by digits to a base, the most significant first. -/
def value (base : Nat) (digits : List Nat) : Nat := digits.foldl (fun n d => base * n + d) 0

def ofDecimals (digits : List (Fin 10)) : Nat := value 10 (digits.map Fin.val)

/-- The decimal digits of a number, the least significant first; none for zero. -/
def decimalsReversed : Nat → List (Fin 10)
  | 0 => []
  | n + 1 => Fin.ofNat 10 (n + 1) :: decimalsReversed ((n + 1) / 10)
termination_by n => n
decreasing_by omega

/-- The decimal digits of a number, with a single zero for zero. -/
def decimals (n : Nat) : List (Fin 10) :=
  if n = 0 then [0] else (decimalsReversed n).reverse

example : ofDecimals [2, 5, 5] = 255 := by decide

end CharacterSheet.Digit
