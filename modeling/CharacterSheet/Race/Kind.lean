import CharacterSheet.Text.AsciiCase

/-!
The playable races. A subrace has a parent whose bonuses it inherits. Every race has a number, a
snake_case name used in data, and a name shown to a person; the numbers are not in listing order.
-/
namespace CharacterSheet

/-- The races in listing order. -/
inductive RaceKind where
  | human
  | dwarf
  | hillDwarf
  | elf
  | highElf
  deriving DecidableEq, Repr, Inhabited

namespace RaceKind

def all : List RaceKind := [human, dwarf, hillDwarf, elf, highElf]

@[simp] theorem mem_all (k : RaceKind) : k ∈ all := by cases k <;> decide

/-- The races that a random choice is made from. -/
def randomPool : List RaceKind := [human, hillDwarf, highElf]

def id : RaceKind → Int32
  | human => 0
  | hillDwarf => 1
  | highElf => 2
  | dwarf => 3
  | elf => 4

def ofId? (n : Int32) : Option RaceKind := all.find? (·.id = n)

@[simp] theorem ofId?_id (k : RaceKind) : ofId? k.id = some k := by cases k <;> decide

theorem ofId?_eq_some_iff {n : Int32} {k : RaceKind} : ofId? n = some k ↔ k.id = n := by
  constructor
  · intro h
    simpa using List.find?_some h
  · rintro rfl
    exact ofId?_id k

/-- The race that a subrace builds on. -/
def parent : RaceKind → Option RaceKind
  | hillDwarf => some dwarf
  | highElf => some elf
  | human | dwarf | elf => none

/-- The name used in data. -/
def identifier : RaceKind → String
  | human => "human"
  | dwarf => "dwarf"
  | hillDwarf => "hill_dwarf"
  | elf => "elf"
  | highElf => "high_elf"

instance : ToString RaceKind := ⟨identifier⟩

def name : RaceKind → String
  | human => "Human"
  | dwarf => "Dwarf"
  | hillDwarf => "Hill Dwarf"
  | elf => "Elf"
  | highElf => "High Elf"

/-- The race whose data name a text is, up to the case of the letters A to Z. Blanks are not
removed. -/
def parse? (text : String) : Option RaceKind :=
  all.find? fun k => AsciiCase.Same text.toList k.identifier.toList

/-- The race whose data name a text is, letter for letter. -/
def ofIdentifier? (text : String) : Option RaceKind := all.find? (·.identifier = text)

@[simp] theorem ofIdentifier?_identifier (k : RaceKind) : ofIdentifier? k.identifier = some k := by
  cases k <;> decide

@[simp] theorem parse?_identifier (k : RaceKind) : parse? k.identifier = some k := by
  cases k <;> decide

example : parse? "HILL_Dwarf" = some hillDwarf ∧ parse? "Hill Dwarf" = none := by decide

end RaceKind
end CharacterSheet
