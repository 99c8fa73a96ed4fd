/-!
Named places that each hold one thing. Storing under a name replaces what the name held before and
leaves every other name alone.
-/
namespace CharacterSheet

/-- Things under distinct names. -/
structure Registers (α : Type) where
  pairs : List (String × α)
  deriving Repr

namespace Registers

variable {α : Type}

def empty : Registers α := ⟨[]⟩

instance : Inhabited (Registers α) := ⟨empty⟩

def get? (r : Registers α) (name : String) : Option α := r.pairs.lookup name

def put (r : Registers α) (name : String) (a : α) : Registers α :=
  ⟨(name, a) :: r.pairs.filter (·.1 ≠ name)⟩

@[simp] theorem get?_empty (name : String) : (empty : Registers α).get? name = none := rfl

private theorem lookup_filter_ne (pairs : List (String × α)) {name other : String}
    (h : other ≠ name) : (pairs.filter (·.1 ≠ name)).lookup other = pairs.lookup other := by
  induction pairs with
  | nil => rfl
  | cons p pairs ih =>
    obtain ⟨k, a⟩ := p
    by_cases hk : k = name
    · subst hk
      have : (other == k) = false := by simpa using h
      simpa [List.lookup_cons, this] using ih
    · by_cases ho : other = k
      · subst ho
        simp [hk]
      · have : (other == k) = false := by simpa using ho
        simpa [List.lookup_cons, hk, this] using ih

@[simp] theorem get?_put (r : Registers α) (name other : String) (a : α) :
    (r.put name a).get? other = if other = name then some a else r.get? other := by
  by_cases h : other = name
  · subst h
    simp [get?, put]
  · have hb : (other == name) = false := by simpa using h
    simpa [get?, put, List.lookup_cons, hb, h] using lookup_filter_ne r.pairs h

end Registers
end CharacterSheet
