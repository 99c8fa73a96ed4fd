/-!
The score of one ability together with the mark of proficiency in its saving throw. The modifier
is half the distance of the score from ten, rounded down; it is never stored.
-/
namespace CharacterSheet

/-- The score whose modifier is zero. -/
def baseline : Int := 10

/-- The modifier of a score, rounded toward negative infinity. -/
def modifierFor (score : UInt8) : Int := ((score.toNat : Int) - baseline).fdiv 2

/-- One entry of a sheet: a score of any byte value and a mark of proficiency. -/
structure AbilityScore where
  score : UInt8
  proficient : Bool
  deriving DecidableEq, Repr

namespace AbilityScore

/-- The entry that holds nothing: score zero, not proficient. -/
def zero : AbilityScore := ⟨0, false⟩

instance : Inhabited AbilityScore := ⟨zero⟩

/-- The sum of two scores, held at 255 when it would be larger. -/
def saturatingAdd (a b : UInt8) : UInt8 := UInt8.ofNat (min (a.toNat + b.toNat) 255)

@[simp] theorem toNat_saturatingAdd (a b : UInt8) :
    (saturatingAdd a b).toNat = min (a.toNat + b.toNat) 255 := by
  simp only [saturatingAdd, UInt8.toNat_ofNat']
  omega

instance : Add AbilityScore :=
  ⟨fun x y => ⟨saturatingAdd x.score y.score, x.proficient || y.proficient⟩⟩

@[simp] theorem score_add (x y : AbilityScore) :
    (x + y).score = saturatingAdd x.score y.score := rfl

@[simp] theorem proficient_add (x y : AbilityScore) :
    (x + y).proficient = (x.proficient || y.proficient) := rfl

/-- The entry with another score and the same mark. -/
def withScore (x : AbilityScore) (score : UInt8) : AbilityScore := ⟨score, x.proficient⟩

/-- The entry with another mark and the same score. -/
def withProficient (x : AbilityScore) (proficient : Bool) : AbilityScore := ⟨x.score, proficient⟩

@[simp] theorem score_withScore (x : AbilityScore) (n : UInt8) : (x.withScore n).score = n := rfl

@[simp] theorem proficient_withScore (x : AbilityScore) (n : UInt8) :
    (x.withScore n).proficient = x.proficient := rfl

@[simp] theorem score_withProficient (x : AbilityScore) (b : Bool) :
    (x.withProficient b).score = x.score := rfl

@[simp] theorem proficient_withProficient (x : AbilityScore) (b : Bool) :
    (x.withProficient b).proficient = b := rfl

def modifier (x : AbilityScore) : Int := modifierFor x.score

/-- The saving throw: the modifier, and the bonus on top if the entry is proficient. -/
def save (x : AbilityScore) (bonus : UInt8) : Int :=
  if x.proficient then x.modifier + bonus.toNat else x.modifier

/-- A number with its sign always written. -/
def signed (n : Int) : String :=
  if n < 0 then "-" ++ toString n.natAbs else "+" ++ toString n.natAbs

/-- The written form: the score, its signed modifier in parentheses, and a star if proficient. -/
def text (x : AbilityScore) : String :=
  toString x.score.toNat ++ " (" ++ signed x.modifier ++ ")" ++ if x.proficient then "*" else ""

instance : ToString AbilityScore := ⟨text⟩

end AbilityScore

example : [0, 1, 9, 10, 11, 255].map modifierFor = [-5, -5, -1, 0, 0, 122] := by decide

example : (AbilityScore.mk 9 true).text = "9 (-1)*" := by decide

example : (AbilityScore.mk 15 false).text = "15 (+2)" := by decide

end CharacterSheet
