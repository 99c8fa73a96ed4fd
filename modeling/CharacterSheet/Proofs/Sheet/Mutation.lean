import CharacterSheet.Proofs.Ability.Names
import CharacterSheet.Proofs.Sheet.Order
import CharacterSheet.Sheet.Edit
import Mathlib.Data.Rat.Floor

/-!
Series of writes to a sheet. An entry is reached through its ability or through a key, and is
replaced as a whole or in one of its parts. Whatever the series, every way to read the sheet gives
what was last written, and a write through a key that names no ability leaves no trace.
-/
namespace CharacterSheet

/-- The modifier is the exact half of the distance from ten, rounded down. -/
lemma modifierFor_eq_floor (score : UInt8) :
    modifierFor score = ⌊((score.toNat : ℚ) - 10) / 2⌋ := by
  have hfloor : ⌊(((score.toNat : ℤ) - 10 : ℤ) : ℚ) / (2 : ℕ)⌋ = ((score.toNat : ℤ) - 10) / 2 :=
    Rat.floor_intCast_div_natCast _ 2
  rw [modifierFor, baseline, Int.fdiv_eq_ediv_of_nonneg _ (by decide), ← hfloor]
  norm_num

/-! ### Writes -/

/-- A write to an entry, of the whole entry or of one part. -/
inductive AbilityScore.Write where
  | whole (score : UInt8) (proficient : Bool)
  | score (score : UInt8)
  | mark (proficient : Bool)
  deriving DecidableEq, Repr

namespace AbilityScore.Write

def apply : Write → AbilityScore → AbilityScore
  | whole n b, _ => ⟨n, b⟩
  | score n, x => x.withScore n
  | mark b, x => x.withProficient b

/-- The score that is written, if one is. -/
def score? : Write → Option UInt8
  | whole n _ => some n
  | score n => some n
  | mark _ => none

/-- The mark that is written, if one is. -/
def mark? : Write → Option Bool
  | whole _ b => some b
  | score _ => none
  | mark b => some b

lemma score_apply (w : Write) (x : AbilityScore) :
    (w.apply x).score = w.score?.getD x.score := by
  cases w <;> rfl

lemma proficient_apply (w : Write) (x : AbilityScore) :
    (w.apply x).proficient = w.mark?.getD x.proficient := by
  cases w <;> rfl

end AbilityScore.Write

namespace Sheet

/-- A way to reach the entry that is to be written: a setter of the sheet, the entry itself, or a
key. -/
inductive Path where
  | setter (ability : Ability)
  | place (ability : Ability)
  | key (key : String)
  deriving DecidableEq, Repr

/-- A write to an entry or to the bonus. -/
inductive Mutation where
  | entry (path : Path) (write : AbilityScore.Write)
  | bonus (n : UInt8)
  deriving DecidableEq, Repr

open AbilityScore (Write)

def mutate (s : Sheet) : Mutation → Except AbilityError Sheet
  | .entry (.setter a) (.whole n b) => .ok (s.set a n b)
  | .entry (.setter a) (.score n) => .ok (s.setScore a n)
  | .entry (.setter a) (.mark b) => .ok (s.setProficient a b)
  | .entry (.place a) w => .ok (s.modify a w.apply)
  | .entry (.key key) w => s.lookupModify key w.apply
  | .bonus n => .ok (s.setProficiencyBonus n)

/-- The sheet after a mutation, which is the same sheet if the mutation fails. -/
def after (s : Sheet) (m : Mutation) : Sheet := (s.mutate m).toOption.getD s

/-- Carries out mutations in order; those that fail are passed over. -/
def mutateAll (s : Sheet) (ms : List Mutation) : Sheet := ms.foldl after s

lemma mutateAll_cons (s : Sheet) (m : Mutation) (ms : List Mutation) :
    s.mutateAll (m :: ms) = (s.after m).mutateAll ms := rfl

lemma mutateAll_append (s : Sheet) (ms rest : List Mutation) :
    s.mutateAll (ms ++ rest) = (s.mutateAll ms).mutateAll rest := List.foldl_append

/-! ### What one mutation does -/

namespace Path

/-- The ability whose entry is reached. -/
def resolve : Path → Except AbilityError Ability
  | setter a => .ok a
  | place a => .ok a
  | key k => Ability.parse k

def Names : Path → Ability → Prop
  | setter b, a => b = a
  | place b, a => b = a
  | key k, a => a.NamedBy k

instance (p : Path) (a : Ability) : Decidable (p.Names a) :=
  match p with
  | setter b => inferInstanceAs (Decidable (b = a))
  | place b => inferInstanceAs (Decidable (b = a))
  | key k => inferInstanceAs (Decidable (a.NamedBy k))

lemma resolve_eq_ok_iff {p : Path} {a : Ability} : p.resolve = .ok a ↔ p.Names a := by
  cases p with
  | setter b => simp [resolve, Names]
  | place b => simp [resolve, Names]
  | key k => exact Ability.parse_eq_ok_iff

end Path

namespace Mutation

/-- The score that a mutation writes to an ability, if it does. -/
def score? (a : Ability) : Mutation → Option UInt8
  | entry p w => if p.Names a then w.score? else none
  | bonus _ => none

/-- The mark that a mutation writes to an ability, if it does. -/
def mark? (a : Ability) : Mutation → Option Bool
  | entry p w => if p.Names a then w.mark? else none
  | bonus _ => none

/-- The bonus that a mutation writes, if it does. -/
def bonus? : Mutation → Option UInt8
  | entry _ _ => none
  | bonus n => some n

end Mutation

section Step

variable (s : Sheet) (a : Ability) (p : Path) (w : Write) (m : Mutation)

lemma mutate_entry : s.mutate (.entry p w) = p.resolve.map (s.modify · w.apply) := by
  cases p with
  | setter b => cases w <;> rfl
  | place b => rfl
  | key k => rfl

lemma proficiencyBonus_after_entry :
    (s.after (.entry p w)).proficiencyBonus = s.proficiencyBonus := by
  rw [after, mutate_entry]
  cases p.resolve <;> rfl

/-- A write changes the entry that its path names and no other. -/
lemma get_after_entry :
    (s.after (.entry p w)).get a = if p.Names a then w.apply (s.get a) else s.get a := by
  rw [after, mutate_entry]
  cases hp : p.resolve with
  | error e =>
    have hnot : ¬ p.Names a := by simp [← Path.resolve_eq_ok_iff, hp]
    rw [if_neg hnot]
    rfl
  | ok b =>
    have hb : p.Names a ↔ a = b := by simp [← Path.resolve_eq_ok_iff, hp, eq_comm]
    simp only [hb]
    exact get_modify s b a w.apply

lemma score_after : (s.after m).score a = (m.score? a).getD (s.score a) := by
  cases m with
  | entry p w =>
    rw [score, get_after_entry, Mutation.score?]
    split_ifs
    · exact w.score_apply _
    · rfl
  | bonus n => exact congrArg (·.score) (get_setProficiencyBonus s n a)

lemma isProficient_after : (s.after m).isProficient a = (m.mark? a).getD (s.isProficient a) := by
  cases m with
  | entry p w =>
    rw [isProficient, get_after_entry, Mutation.mark?]
    split_ifs
    · exact w.proficient_apply _
    · rfl
  | bonus n => exact congrArg (·.proficient) (get_setProficiencyBonus s n a)

lemma proficiencyBonus_after :
    (s.after m).proficiencyBonus = m.bonus?.getD s.proficiencyBonus := by
  cases m with
  | entry p w => exact proficiencyBonus_after_entry s p w
  | bonus n => rfl

end Step

/-! ### What a series of mutations leaves -/

/-- The last value that a series of mutations gives, or else the one that was there. -/
def lastOr {α : Type} (given : Mutation → Option α) (ms : List Mutation) (initial : α) : α :=
  (ms.filterMap given).getLast?.getD initial

lemma lastOr_cons {α : Type} (given : Mutation → Option α) (m : Mutation) (ms : List Mutation)
    (initial : α) : lastOr given (m :: ms) initial = lastOr given ms ((given m).getD initial) := by
  unfold lastOr
  cases h : given m with
  | none => rw [List.filterMap_cons_none h, Option.getD_none]
  | some x =>
    rw [List.filterMap_cons_some h, List.getLast?_cons, Option.getD_some, Option.getD_some]

/-- A part of the sheet that every mutation either gives or leaves holds what was last given. -/
lemma read_mutateAll {α : Type} (read : Sheet → α) (given : Mutation → Option α)
    (hstep : ∀ s m, read (s.after m) = (given m).getD (read s)) (s : Sheet) (ms : List Mutation) :
    read (s.mutateAll ms) = lastOr given ms (read s) := by
  induction ms generalizing s with
  | nil => rfl
  | cons m ms ih => rw [mutateAll_cons, ih, lastOr_cons, hstep]

/-- The entry that a series of mutations leaves: its last score and its last mark. -/
def settled (s : Sheet) (ms : List Mutation) (a : Ability) : AbilityScore :=
  ⟨lastOr (Mutation.score? a) ms (s.score a), lastOr (Mutation.mark? a) ms (s.isProficient a)⟩

lemma get_mutateAll (s : Sheet) (ms : List Mutation) (a : Ability) :
    (s.mutateAll ms).get a = s.settled ms a := by
  have hscore := read_mutateAll (·.score a) (Mutation.score? a) (score_after · a) s ms
  have hmark := read_mutateAll (·.isProficient a) (Mutation.mark? a) (isProficient_after · a) s ms
  rw [settled, ← hscore, ← hmark]
  rfl

lemma getElem?_toList (s : Sheet) (a : Ability) : s.toList[a.index.val]? = some (a, s.get a) := by
  cases a <;> rfl

lemma save_eq_floor (s : Sheet) (a : Ability) :
    s.save a = ⌊(((s.get a).score.toNat : ℚ) - 10) / 2⌋ +
      if (s.get a).proficient then (s.proficiencyBonus.toNat : ℤ) else 0 := by
  rw [save_eq, modifier, AbilityScore.modifier, modifierFor_eq_floor, isProficient]

lemma mutate_of_parse_error {key : String} {e : AbilityError} (h : Ability.parse key = .error e)
    (s : Sheet) (w : Write) : s.mutate (.entry (.key key) w) = .error e := by
  rw [mutate_entry, Path.resolve, h]
  rfl

/-- After every series of mutations, all ways to read a sheet give what was last written to each
ability and to the bonus. A write through a key that names no ability fails with the key quoted, and
what follows goes on as without it. -/
theorem reads_give_last_writes (s : Sheet) (ms : List Mutation) :
    (∀ a, (s.mutateAll ms).get a = s.settled ms a ∧
      (s.mutateAll ms).score a = lastOr (Mutation.score? a) ms (s.score a) ∧
      (s.mutateAll ms).isProficient a = lastOr (Mutation.mark? a) ms (s.isProficient a) ∧
      (s.mutateAll ms).toList[a.index.val]? = some (a, s.settled ms a) ∧
      (∀ key, Ability.parse key = .ok a →
        (s.mutateAll ms).lookup key = .ok (s.settled ms a)) ∧
      (s.mutateAll ms).save a = ⌊(((s.settled ms a).score.toNat : ℚ) - 10) / 2⌋ +
        if (s.settled ms a).proficient then
          ((lastOr Mutation.bonus? ms s.proficiencyBonus).toNat : ℤ)
        else 0) ∧
    (s.mutateAll ms).toList = Ability.all.map (fun a => (a, s.settled ms a)) ∧
    (s.mutateAll ms).proficiencyBonus = lastOr Mutation.bonus? ms s.proficiencyBonus ∧
    ∀ key e, Ability.parse key = .error e →
      e = .unknownAbility key ∧ (s.mutateAll ms).lookup key = .error e ∧
      ∀ w, (s.mutateAll ms).mutate (.entry (.key key) w) = .error e ∧
        ∀ rest, s.mutateAll (ms ++ .entry (.key key) w :: rest) = s.mutateAll (ms ++ rest) := by
  have hget := get_mutateAll s ms
  have hbonus := read_mutateAll proficiencyBonus Mutation.bonus? proficiencyBonus_after s ms
  refine ⟨fun a => ⟨hget a, congrArg (·.score) (hget a), congrArg (·.proficient) (hget a), ?_,
    fun key h => ?_, ?_⟩, ?_, hbonus, fun key e h => ⟨Ability.eq_unknownAbility_of_parse h, ?_,
    fun w => ⟨mutate_of_parse_error h _ w, fun rest => ?_⟩⟩⟩
  · rw [getElem?_toList, hget]
  · rw [lookup, h, ← hget]
    rfl
  · rw [save_eq_floor, hget, hbonus]
  · rw [toList, funext hget]
  · rw [lookup, h]
    rfl
  · rw [mutateAll_append, mutateAll_append, mutateAll_cons, after, mutate_of_parse_error h]
    rfl

example : (mutateAll (uniform 10) [.entry (.place .wisdom) (.score 16), .bonus 3,
    .entry (.key " WIS") (.mark true), .entry (.key "luck") (.score 1)]).save .wisdom = 6 := by
  decide

end Sheet
end CharacterSheet
