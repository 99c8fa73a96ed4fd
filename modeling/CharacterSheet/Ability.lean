import CharacterSheet.Text.AsciiCase
import CharacterSheet.Text.Blank

/-!
The six abilities of a character, their fixed order, and the names they go by. A key names an
ability by its three-letter code or by its full name, in any case and with blanks around it.
-/
namespace CharacterSheet

/-- The abilities in their canonical order. -/
inductive Ability where
  | strength
  | dexterity
  | constitution
  | intelligence
  | wisdom
  | charisma
  deriving DecidableEq, Repr, Inhabited

/-- Reasons why a key or a number names no ability. -/
inductive AbilityError where
  | unknownAbility (key : String)
  | invalidIndex (index : UInt8)
  deriving DecidableEq, Repr

namespace AbilityError

def code : AbilityError → String
  | unknownAbility _ => "ABILITY_UNKNOWN"
  | invalidIndex _ => "ABILITY_INVALID_INDEX"

/-- The text shown to a person; an unknown key is quoted as it was given. -/
def message : AbilityError → String
  | unknownAbility key => "unknown ability '" ++ key ++ "'"
  | invalidIndex index =>
    "ability index " ++ toString index.toNat ++ " is out of range (expected 0..=5)"

end AbilityError

namespace Ability

def all : List Ability := [strength, dexterity, constitution, intelligence, wisdom, charisma]

@[simp] theorem mem_all (a : Ability) : a ∈ all := by cases a <;> decide

@[simp] theorem length_all : all.length = 6 := rfl

def index : Ability → Fin 6
  | strength => 0
  | dexterity => 1
  | constitution => 2
  | intelligence => 3
  | wisdom => 4
  | charisma => 5

def ofIndex : Fin 6 → Ability
  | 0 => strength
  | 1 => dexterity
  | 2 => constitution
  | 3 => intelligence
  | 4 => wisdom
  | 5 => charisma

@[simp] theorem ofIndex_index (a : Ability) : ofIndex a.index = a := by cases a <;> rfl

@[simp] theorem index_ofIndex (i : Fin 6) : (ofIndex i).index = i := by decide +revert

theorem index_injective {a b : Ability} (h : a.index = b.index) : a = b := by
  rw [← ofIndex_index a, ← ofIndex_index b, h]

@[simp] theorem index_inj {a b : Ability} : a.index = b.index ↔ a = b :=
  ⟨index_injective, congrArg index⟩

/-- The ability with the given number, counted from zero. -/
def ofNumber (n : UInt8) : Except AbilityError Ability :=
  if h : n.toNat < 6 then .ok (ofIndex ⟨n.toNat, h⟩) else .error (.invalidIndex n)

instance : LE Ability := ⟨fun a b => a.index ≤ b.index⟩

instance (a b : Ability) : Decidable (a ≤ b) := inferInstanceAs (Decidable (a.index ≤ b.index))

/-- A list of abilities put into canonical order; repeated ones stay. -/
def sort (abilities : List Ability) : List Ability := abilities.mergeSort

/-- The three-letter code, which is also the way an ability is written. -/
def code : Ability → String
  | strength => "STR"
  | dexterity => "DEX"
  | constitution => "CON"
  | intelligence => "INT"
  | wisdom => "WIS"
  | charisma => "CHA"

def name : Ability → String
  | strength => "Strength"
  | dexterity => "Dexterity"
  | constitution => "Constitution"
  | intelligence => "Intelligence"
  | wisdom => "Wisdom"
  | charisma => "Charisma"

instance : ToString Ability := ⟨code⟩

/-- A key names an ability if, without the blanks around it, it is the code or the full name up to
the case of the letters A to Z. -/
def NamedBy (a : Ability) (key : String) : Prop :=
  AsciiCase.Same (Blank.trim key.toList) a.code.toList ∨
    AsciiCase.Same (Blank.trim key.toList) a.name.toList

instance (a : Ability) (key : String) : Decidable (a.NamedBy key) :=
  inferInstanceAs (Decidable (_ ∨ _))

def parse (key : String) : Except AbilityError Ability :=
  match all.find? (·.NamedBy key) with
  | some a => .ok a
  | none => .error (.unknownAbility key)

/-- No folded name belongs to two abilities. -/
theorem eq_of_names_same {a b : Ability} {cs : List Char}
    (ha : AsciiCase.Same cs a.code.toList ∨ AsciiCase.Same cs a.name.toList)
    (hb : AsciiCase.Same cs b.code.toList ∨ AsciiCase.Same cs b.name.toList) : a = b := by
  have key : ∀ a b : Ability, (AsciiCase.fold a.code.toList = AsciiCase.fold b.code.toList ∨
      AsciiCase.fold a.code.toList = AsciiCase.fold b.name.toList ∨
      AsciiCase.fold a.name.toList = AsciiCase.fold b.code.toList ∨
      AsciiCase.fold a.name.toList = AsciiCase.fold b.name.toList) → a = b := by
    intro a b
    cases a <;> cases b <;> decide
  apply key
  rcases ha with ha | ha <;> rcases hb with hb | hb <;>
    simp only [AsciiCase.Same] at ha hb <;> simp [← ha, ← hb]

example : (parse " wIsDoM\t").toOption = some wisdom := by decide

example : (parse "luck").toOption = none := by decide

end Ability
end CharacterSheet
