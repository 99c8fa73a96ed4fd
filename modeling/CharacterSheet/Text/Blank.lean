/-!
White space around a text. The characters counted as blank are those with the Unicode property
White_Space; trimming removes them at both ends and leaves those inside the text alone.
-/
namespace CharacterSheet.Blank

/-- The code points with the property White_Space, as closed intervals in increasing order. -/
def intervals : List (Nat × Nat) :=
  [(0x9, 0xD), (0x20, 0x20), (0x85, 0x85), (0xA0, 0xA0), (0x1680, 0x1680), (0x2000, 0x200A),
    (0x2028, 0x2029), (0x202F, 0x202F), (0x205F, 0x205F), (0x3000, 0x3000)]

/-- Whether a character has the property White_Space. -/
def isBlank (c : Char) : Bool :=
  intervals.any fun (first, last) => first ≤ c.toNat && c.toNat ≤ last

/-- The text without blanks at its start. -/
def trimStart (cs : List Char) : List Char := cs.dropWhile isBlank

/-- The text without blanks at its end. -/
def trimEnd (cs : List Char) : List Char := (cs.reverse.dropWhile isBlank).reverse

/-- The text without blanks at its two ends. -/
def trim (cs : List Char) : List Char := trimEnd (trimStart cs)

@[simp] theorem trim_nil : trim [] = [] := rfl

/-- The property holds of twenty-five code points. -/
example : (intervals.map fun (first, last) => last + 1 - first).sum = 25 := by decide

example : trim " a b ".toList = "a b".toList := by decide

end CharacterSheet.Blank
