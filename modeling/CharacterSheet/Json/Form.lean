import CharacterSheet.Config
import CharacterSheet.Json.Text
import CharacterSheet.Race.Kind
import CharacterSheet.Sheet

/-!
The JSON forms of abilities, entries, sheets, races, ranges and configurations. A record is an
object of its fields in any order, with unknown members passed over and no known member twice, or
the array of its fields in order. Only ranges and configurations may leave fields out.
-/
namespace CharacterSheet.Json

/-- Types with a JSON form: how a value is written, and which JSON values are read as it. -/
class Form (α : Type) where
  encode : α → Value
  decode : Value → Option α

namespace Form

def write {α : Type} [Form α] (a : α) : String := (encode a).text

def read? {α : Type} [Form α] (text : String) : Option α := do
  let value ← Value.read? text
  decode value

/-- A byte is a whole number up to 255, written with digits only. -/
instance : Form UInt8 where
  encode n := .number (.ofNat n.toNat)
  decode
    | .number n => do
      let n ← n.natural?
      if n < 256 then some (UInt8.ofNat n) else none
    | _ => none

instance : Form Bool where
  encode := .bool
  decode
    | .bool b => some b
    | _ => none

/-- The name that a value gives: a string, or the only member of an object, with nothing in it. -/
def name? : Value → Option String
  | .string s => s
  | .object [(s, .null)] => s
  | _ => none

/-- The value of a member, if there is one; nothing at all if the name is repeated. -/
def member? (members : List (Literal × Value)) (name : String) : Option (Option Value) :=
  match members.filter (·.1 = some name) with
  | [] => some none
  | [(_, value)] => some (some value)
  | _ => none

/-- The values of the named fields of a record, each of them possibly absent: by name from an
object, by place from an array that is not too long. -/
def fields? (names : List String) : Value → Option (List (Option Value))
  | .object members =>
    if members.all (·.1.isSome) then names.mapM (member? members) else none
  | .array items =>
    if items.length ≤ names.length then
      some (items.map some ++ List.replicate (names.length - items.length) none)
    else
      none
  | _ => none

/-- A field that must be present. -/
def required {α : Type} [Form α] (field : Option Value) : Option α := field.bind decode

/-- A field that has a default when it is absent, and only then. -/
def optional {α : Type} [Form α] (default : α) : Option Value → Option α
  | none => some default
  | some value => decode value

/-- An ability is its full name. -/
instance : Form Ability where
  encode a := .string a.name
  decode value := do
    let name ← name? value
    Ability.all.find? (·.name = name)

/-- A race is its data name. -/
instance : Form RaceKind where
  encode k := .string k.identifier
  decode value := do
    let name ← name? value
    RaceKind.ofIdentifier? name

instance : Form AbilityScore where
  encode x := .object [(some "score", encode x.score), (some "proficient", encode x.proficient)]
  decode value := do
    match ← fields? ["score", "proficient"] value with
    | [score, proficient] => some ⟨← required score, ← required proficient⟩
    | _ => none

/-- The bonus and exactly six entries. -/
instance : Form Sheet where
  encode s := .object [(some "proficiency_bonus", encode s.proficiencyBonus),
    (some "scores", .array (Ability.all.map fun a => encode (s.get a)))]
  decode value := do
    match ← fields? ["proficiency_bonus", "scores"] value with
    | [bonus, some (.array [str, dex, con, int, wis, cha])] =>
      some ⟨← required bonus, ← decode str, ← decode dex, ← decode con, ← decode int, ← decode wis,
        ← decode cha⟩
    | _ => none

instance : Form ScoreRange where
  encode range := .object [(some "min", encode range.min), (some "max", encode range.max)]
  decode value := do
    match ← fields? ["min", "max"] value with
    | [min, max] =>
      some ⟨← optional ScoreRange.standard.min min, ← optional ScoreRange.standard.max max⟩
    | _ => none

instance : Form Config where
  encode config := .object [(some "score_roll", encode config.scoreRoll),
    (some "proficiency_bonus", encode config.proficiencyBonus)]
  decode value := do
    match ← fields? ["score_roll", "proficiency_bonus"] value with
    | [range, bonus] =>
      some ⟨← optional Config.standard.scoreRoll range,
        ← optional Config.standard.proficiencyBonus bonus⟩
    | _ => none

end Form
end CharacterSheet.Json
