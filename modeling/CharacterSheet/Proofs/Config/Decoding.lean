import CharacterSheet.Config.Document
import CharacterSheet.Proofs.Toml.Reading

/-!
What a document states about a configuration, in terms of the entries that stand in it: the values
that fill the three slots, and the rest, of which only the numbers matter. Reading a text gives
exactly the configuration that its document states.
-/
namespace CharacterSheet

open Toml (Value Entries)

lemma Toml.holdsEntries_iff {entries : Entries} :
    Toml.holdsEntries entries ↔ ∀ entry ∈ entries, entry.2.holds := by
  induction entries with
  | nil => simp [Toml.holdsEntries]
  | cons entry entries ih =>
    obtain ⟨key, value⟩ := entry
    simp [Toml.holdsEntries, ih]

namespace Config

/-- The places of a configuration that a document may fill. -/
inductive Slot where
  | min
  | max
  | bonus
  deriving DecidableEq, Repr

namespace Slot

/-- What an absent slot holds. -/
def standard : Slot → UInt8
  | min => 8
  | max => 18
  | bonus => 2

def of (config : Config) : Slot → UInt8
  | min => config.scoreRoll.min
  | max => config.scoreRoll.max
  | bonus => config.proficiencyBonus

end Slot

/-- A value gives a bound: under its name in a table, or by its place in an array. -/
inductive Bounds : Value → Slot → Value → Prop where
  | min {bounds : Entries} {value : Value} (h : ("min", value) ∈ bounds) :
    Bounds (.table bounds) .min value
  | max {bounds : Entries} {value : Value} (h : ("max", value) ∈ bounds) :
    Bounds (.table bounds) .max value
  | first {value : Value} {items : List Value} : Bounds (.array (value :: items)) .min value
  | second {other value : Value} {items : List Value} :
    Bounds (.array (other :: value :: items)) .max value

/-- A document fills a slot with a value. -/
inductive Fills (entries : Entries) : Slot → Value → Prop where
  | bonus {value : Value} (h : ("proficiency_bonus", value) ∈ entries) : Fills entries .bonus value
  | bound {roll value : Value} {slot : Slot} (hroll : ("score_roll", roll) ∈ entries)
    (h : Bounds roll slot value) : Fills entries slot value

/-- A value stands in a document outside of the slots, where only its numbers matter. The items of
an array of bounds after the second stand nowhere: they are not looked at. -/
inductive Beside (entries : Entries) : Value → Prop where
  | entry {key : String} {value : Value} (h : (key, value) ∈ entries)
    (hkey : key ∉ ["score_roll", "proficiency_bonus"]) : Beside entries value
  | bound {bounds : Entries} {key : String} {value : Value}
    (hroll : ("score_roll", .table bounds) ∈ entries) (h : (key, value) ∈ bounds)
    (hkey : key ∉ ["min", "max"]) : Beside entries value

/-- Every number outside of the slots can be held. -/
def Held (entries : Entries) : Prop := ∀ value, Beside entries value → value.holds

/-- A value that may stand for the range: a table, an array, or a moment. -/
def isRange : Value → Bool
  | .table _ | .array _ | .moment _ => true
  | _ => false

def Shaped (entries : Entries) : Prop := ∀ roll, ("score_roll", roll) ∈ entries → isRange roll

def IsByte (value : Value) : Prop := ∃ byte : UInt8, value = .integer byte.toNat

/-- A slot holds the byte that a document fills it with, or the standard one if it is absent. -/
structure Settles (given : Value → Prop) (standard byte : UInt8) : Prop where
  filled : ∀ value, given value → value = .integer byte.toNat
  absent : (∀ value, ¬ given value) → byte = standard

/-- A document states a configuration. -/
structure States (entries : Entries) (config : Config) : Prop where
  held : Held entries
  shaped : Shaped entries
  slots : ∀ slot, Settles (Fills entries slot) slot.standard (slot.of config)

/-! The parts of the reader. -/

lemma byte?_eq_some_iff {value : Value} {byte : UInt8} :
    byte? value = some byte ↔ value = .integer byte.toNat := by
  constructor
  · intro h
    cases value with
    | integer n =>
      rw [byte?] at h
      split_ifs at h with hn
      cases h
      have hsize : n.toNat % 2 ^ 8 = n.toNat := Nat.mod_eq_of_lt (by omega)
      rw [UInt8.toNat_ofNat', hsize, Int.toNat_of_nonneg hn.1]
    | _ => cases h
  · rintro rfl
    have hsize : byte.toNat < 256 := byte.toNat_lt
    rw [byte?, if_pos (by omega), Int.toNat_natCast, UInt8.ofNat_toNat]

lemma slot?_eq_some_iff {given : Value → Prop} {standard byte : UInt8} {found : Option Value}
    (h : ∀ value, found = some value ↔ given value) :
    slot? standard found = some byte ↔ Settles given standard byte := by
  cases found with
  | none =>
    have habsent : ∀ value, ¬ given value := fun value hvalue => nomatch (h value).mpr hvalue
    constructor
    · intro heq
      cases heq
      exact ⟨fun value hvalue => absurd hvalue (habsent value), fun _ => rfl⟩
    · intro hsettles
      rw [hsettles.absent habsent]
      rfl
  | some value =>
    have hvalue : given value := (h value).mp rfl
    rw [slot?, byte?_eq_some_iff]
    constructor
    · intro heq
      refine ⟨fun other hother => ?_, fun habsent => absurd hvalue (habsent value)⟩
      cases (h other).mpr hother
      exact heq
    · intro hsettles
      exact hsettles.filled value hvalue

lemma othersHold_iff {names : List String} {entries : Entries} :
    othersHold names entries ↔ ∀ key value, (key, value) ∈ entries → key ∉ names → value.holds := by
  rw [othersHold, Toml.holdsEntries_iff]
  simp

/-- Two absent bounds settle the standard range. -/
lemma standard_eq_some_iff {givenMin givenMax : Value → Prop} {range : ScoreRange}
    (hmin : ∀ value, ¬ givenMin value) (hmax : ∀ value, ¬ givenMax value) :
    some ScoreRange.standard = some range ↔
      Settles givenMin 8 range.min ∧ Settles givenMax 18 range.max := by
  constructor
  · intro h
    cases h
    exact ⟨⟨fun value h => absurd h (hmin value), fun _ => rfl⟩,
      fun value h => absurd h (hmax value), fun _ => rfl⟩
  · rintro ⟨hmin', hmax'⟩
    have hrange : range = ⟨8, 18⟩ := by rw [← hmin'.absent hmin, ← hmax'.absent hmax]
    rw [hrange]
    rfl

lemma pair_eq_some_iff {min? max? : Option UInt8} {range : ScoreRange} :
    (do
      let min ← min?
      let max ← max?
      some (⟨min, max⟩ : ScoreRange)) = some range ↔
      min? = some range.min ∧ max? = some range.max := by
  constructor
  · intro h
    obtain ⟨min, hmin, h⟩ := Option.bind_eq_some_iff.mp h
    obtain ⟨max, hmax, h⟩ := Option.bind_eq_some_iff.mp h
    cases h
    exact ⟨hmin, hmax⟩
  · rintro ⟨hmin, hmax⟩
    rw [hmin, hmax]
    rfl

/-- The numbers of a table beside its bounds can be held. -/
def BoundsHeld (roll : Value) : Prop :=
  ∀ bounds, roll = .table bounds → ∀ key value, (key, value) ∈ bounds → key ∉ ["min", "max"] →
    value.holds

lemma range?_table_eq_some_iff {bounds : Entries} {range : ScoreRange}
    (keys : Toml.DistinctKeys bounds) :
    range? (.table bounds) = some range ↔ BoundsHeld (.table bounds) ∧
      Settles (Bounds (.table bounds) .min) 8 range.min ∧
      Settles (Bounds (.table bounds) .max) 18 range.max := by
  have hmin : ∀ value, bounds.lookup "min" = some value ↔ Bounds (.table bounds) .min value := by
    intro value
    rw [Toml.lookup_eq_some_iff_mem keys]
    exact ⟨.min, fun | .min h => h⟩
  have hmax : ∀ value, bounds.lookup "max" = some value ↔ Bounds (.table bounds) .max value := by
    intro value
    rw [Toml.lookup_eq_some_iff_mem keys]
    exact ⟨.max, fun | .max h => h⟩
  have hheld : BoundsHeld (.table bounds) ↔ othersHold ["min", "max"] bounds := by
    rw [othersHold_iff]
    exact ⟨fun h => h bounds rfl, fun | h, _, rfl => h⟩
  rw [hheld, ← slot?_eq_some_iff hmin, ← slot?_eq_some_iff hmax, range?]
  split_ifs with hothers
  · rw [pair_eq_some_iff, and_iff_right hothers]
    rfl
  · constructor
    · intro h
      cases h
    · rintro ⟨h, -⟩
      exact absurd h hothers

lemma range?_array_eq_some_iff {items : List Value} {range : ScoreRange} :
    range? (.array items) = some range ↔
      Settles (Bounds (.array items) .min) 8 range.min ∧
      Settles (Bounds (.array items) .max) 18 range.max := by
  have hmin : ∀ value, items[0]? = some value ↔ Bounds (.array items) .min value := by
    intro value
    constructor
    · intro h
      obtain ⟨others, rfl⟩ := List.head?_eq_some_iff.mp (List.head?_eq_getElem? ▸ h)
      exact .first
    · rintro ⟨⟩
      rfl
  have hmax : ∀ value, items[1]? = some value ↔ Bounds (.array items) .max value := by
    intro value
    constructor
    · intro h
      match items, h with
      | _ :: _ :: _, rfl => exact .second
    · rintro ⟨⟩
      rfl
  rw [← slot?_eq_some_iff hmin, ← slot?_eq_some_iff hmax, range?, pair_eq_some_iff]
  rfl

lemma range?_eq_some_iff {roll : Value} {range : ScoreRange} (hroll : roll.WellKeyed) :
    range? roll = some range ↔ (isRange roll ∧ BoundsHeld roll) ∧
      Settles (Bounds roll .min) 8 range.min ∧ Settles (Bounds roll .max) 18 range.max := by
  cases roll with
  | table bounds =>
    rw [range?_table_eq_some_iff hroll.distinctKeys, and_assoc]
    exact (and_iff_right rfl).symm
  | array items =>
    have held : BoundsHeld (.array items) := fun _ h => nomatch h
    rw [range?_array_eq_some_iff]
    exact (and_iff_right ⟨rfl, held⟩).symm
  | moment m =>
    have held : BoundsHeld (.moment m) := fun _ h => nomatch h
    rw [and_iff_right ⟨rfl, held⟩]
    exact standard_eq_some_iff (fun _ h => nomatch h) fun _ h => nomatch h
  | _ =>
    constructor
    · intro h
      cases h
    · rintro ⟨⟨h, -⟩, -⟩
      cases h

variable {entries : Entries} {config : Config}

lemma fills_bonus_iff {value : Value} :
    Fills entries .bonus value ↔ ("proficiency_bonus", value) ∈ entries := by
  constructor
  · rintro (h | ⟨_, ⟨⟩⟩)
    exact h
  · exact .bonus

/-- The only range of a document is the one that gives the bounds. -/
lemma fills_iff_bounds (keys : Toml.DistinctKeys entries) {roll value : Value} {slot : Slot}
    (hroll : ("score_roll", roll) ∈ entries) (hslot : slot ≠ .bonus) :
    Fills entries slot value ↔ Bounds roll slot value := by
  constructor
  · rintro (h | ⟨hother, h⟩)
    · exact absurd rfl hslot
    · cases keys.eq_of_mem hroll hother
      exact h
  · exact .bound hroll

lemma held_iff : Held entries ↔ othersHold ["score_roll", "proficiency_bonus"] entries ∧
    ∀ roll, ("score_roll", roll) ∈ entries → BoundsHeld roll := by
  rw [othersHold_iff]
  constructor
  · intro h
    refine ⟨fun key value hmem hkey => h value (.entry hmem hkey), ?_⟩
    rintro _ hroll bounds rfl key value hmem hkey
    exact h value (.bound hroll hmem hkey)
  · rintro ⟨hentries, hbounds⟩ value (⟨hmem, hkey⟩ | ⟨hroll, hmem, hkey⟩)
    · exact hentries _ _ hmem hkey
    · exact hbounds _ hroll _ rfl _ _ hmem hkey

/-- The range of a document, which is standard if nothing is said about it. -/
def roll? (entries : Entries) : Option ScoreRange :=
  match entries.lookup "score_roll" with
  | none => some ScoreRange.standard
  | some value => range? value

lemma roll?_eq_some_iff (h : (Value.table entries).WellKeyed) {range : ScoreRange} :
    roll? entries = some range ↔
      (Shaped entries ∧ ∀ roll, ("score_roll", roll) ∈ entries → BoundsHeld roll) ∧
      Settles (Fills entries .min) 8 range.min ∧ Settles (Fills entries .max) 18 range.max := by
  have keys := h.distinctKeys
  rw [roll?]
  cases hlookup : entries.lookup "score_roll" with
  | none =>
    have hnone := Toml.lookup_eq_none_iff_not_mem.mp hlookup
    rw [and_iff_right ⟨fun roll h => absurd h (hnone roll), fun roll h => absurd h (hnone roll)⟩]
    refine standard_eq_some_iff ?_ ?_ <;> rintro value (_ | ⟨hroll, -⟩) <;> exact hnone _ hroll
  | some roll =>
    have hroll : ("score_roll", roll) ∈ entries := Toml.mem_of_lookup hlookup
    have hmin : Fills entries .min = Bounds roll .min :=
      funext fun _ => propext (fills_iff_bounds keys hroll (by decide))
    have hmax : Fills entries .max = Bounds roll .max :=
      funext fun _ => propext (fills_iff_bounds keys hroll (by decide))
    have honly : ∀ other, ("score_roll", other) ∈ entries ↔ other = roll := by
      intro other
      rw [← Toml.lookup_eq_some_iff_mem keys, hlookup, Option.some_inj, eq_comm]
    simp only [Shaped, honly, forall_eq, hmin, hmax]
    exact range?_eq_some_iff (h.of_mem hroll)

lemma ofEntries?_eq : ofEntries? entries =
    if othersHold ["score_roll", "proficiency_bonus"] entries then
      (roll? entries).bind fun range =>
        (slot? 2 (entries.lookup "proficiency_bonus")).bind fun bonus => some ⟨range, bonus⟩
    else
      none := by
  rw [ofEntries?, roll?]
  cases entries.lookup "score_roll" <;> rfl

/-- A document is read as the configuration that it states, and as no other. -/
theorem ofEntries?_eq_some_iff (h : (Value.table entries).WellKeyed) :
    ofEntries? entries = some config ↔ States entries config := by
  have hbonus : ∀ value, entries.lookup "proficiency_bonus" = some value ↔
      Fills entries .bonus value := by
    intro value
    rw [fills_bonus_iff, Toml.lookup_eq_some_iff_mem h.distinctKeys]
  rw [ofEntries?_eq]
  constructor
  · intro heq
    split_ifs at heq with hothers
    obtain ⟨range, hrange, heq⟩ := Option.bind_eq_some_iff.mp heq
    obtain ⟨bonus, hbyte, heq⟩ := Option.bind_eq_some_iff.mp heq
    cases heq
    obtain ⟨⟨hshaped, hbounds⟩, hmin, hmax⟩ := (roll?_eq_some_iff h).mp hrange
    refine ⟨held_iff.mpr ⟨hothers, hbounds⟩, hshaped, fun slot => ?_⟩
    cases slot with
    | min => exact hmin
    | max => exact hmax
    | bonus => exact (slot?_eq_some_iff hbonus).mp hbyte
  · rintro ⟨hheld, hshaped, hslots⟩
    obtain ⟨hothers, hbounds⟩ := held_iff.mp hheld
    have hrange : roll? entries = some config.scoreRoll :=
      (roll?_eq_some_iff h).mpr ⟨⟨hshaped, hbounds⟩, hslots .min, hslots .max⟩
    have hbyte : slot? 2 (entries.lookup "proficiency_bonus") = some config.proficiencyBonus :=
      (slot?_eq_some_iff hbonus).mpr (hslots .bonus)
    rw [if_pos hothers, hrange, Option.bind_some, hbyte]
    rfl

end Config
end CharacterSheet
