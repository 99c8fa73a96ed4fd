import CharacterSheet.Proofs.Json.Record
import Mathlib.Logic.Relation

/-!
Different ways to say the same in JSON. The members of a record may stand in any order and among
members of unknown names, and a record may be the array of its fields; at any depth such changes
leave what is read from a value, or that nothing is read from it, as it was.
-/
namespace CharacterSheet.Json

open Form

/-- Which parts of a value are records, and what their fields are called, in order. -/
inductive Schema where
  | scalar
  | list (item : Schema)
  | record (fields : List (String × Schema))

namespace Schema

def entry : Schema := .record [("score", .scalar), ("proficient", .scalar)]

def sheet : Schema := .record [("proficiency_bonus", .scalar), ("scores", .list entry)]

def range : Schema := .record [("min", .scalar), ("max", .scalar)]

def config : Schema := .record [("score_roll", range), ("proficiency_bonus", .scalar)]

end Schema

/-- One change to the records of a value: their members are put in another order, a member of an
unknown name is put in, the object of all fields in order becomes the array of them, or a change is
made to a record inside. -/
inductive Rephrases : Schema → Value → Value → Prop where
  | reorder {fields : List (String × Schema)} {members others : List (Literal × Value)}
    (h : members.Perm others) : Rephrases (.record fields) (.object members) (.object others)
  | insert {fields : List (String × Schema)} {before after : List (Literal × Value)} {name : String}
    {value : Value} (h : name ∉ fields.map Prod.fst) :
    Rephrases (.record fields) (.object (before ++ after))
      (.object (before ++ (some name, value) :: after))
  | list {fields : List (String × Schema)} {values : List Value}
    (h : values.length = fields.length) :
    Rephrases (.record fields)
      (.object (List.zip (fields.map fun field => some field.1) values)) (.array values)
  | member {fields : List (String × Schema)} {before after : List (Literal × Value)} {name : String}
    {s : Schema} {v w : Value} (hfield : (name, s) ∈ fields) (h : Rephrases s v w) :
    Rephrases (.record fields) (.object (before ++ (some name, v) :: after))
      (.object (before ++ (some name, w) :: after))
  | place {fields : List (String × Schema)} {before after : List Value} {name : String}
    {s : Schema} {v w : Value} (hfield : fields[before.length]? = some (name, s))
    (h : Rephrases s v w) :
    Rephrases (.record fields) (.array (before ++ v :: after)) (.array (before ++ w :: after))
  | item {s : Schema} {before after : List Value} {v w : Value} (h : Rephrases s v w) :
    Rephrases (.list s) (.array (before ++ v :: after)) (.array (before ++ w :: after))

/-- A value is another one after any number of changes to its records. -/
def Paraphrase (s : Schema) : Value → Value → Prop := Relation.ReflTransGen (Rephrases s)

/-- Changes under a schema do not matter to a reader. -/
def Respects {α : Type} (read : Value → Option α) (s : Schema) : Prop :=
  ∀ v w, Rephrases s v w → read v = read w

lemma Respects.paraphrase {α : Type} {read : Value → Option α} {s : Schema} {v w : Value}
    (h : Respects read s) (hvw : Paraphrase s v w) : read v = read w := by
  induction hvw with
  | refl => rfl
  | tail _ hstep ih => exact ih.trans (h _ _ hstep)

/-- Nothing inside a scalar can be changed. -/
lemma respects_scalar {α : Type} (read : Value → Option α) : Respects read .scalar := by
  rintro v w ⟨⟩

section Record

variable {α : Type} {first second : String} {read : Option Value → Option Value → Option α}

lemma record?_object (members : List (Literal × Value)) :
    record? first second read (.object members) =
      if ∀ member ∈ members, member.1.isSome then
        (member? members first).bind fun x => (member? members second).bind fun y => read x y
      else none := by
  rw [record?, fields?_object]
  split_ifs
  · cases member? members first <;> cases member? members second <;> rfl
  · rfl

lemma forall_isSome_insert {before after : List (Literal × Value)} {name : String} {value : Value} :
    (∀ member ∈ before ++ (some name, value) :: after, member.1.isSome) ↔
      ∀ member ∈ before ++ after, member.1.isSome := by
  simp only [List.forall_mem_append, List.forall_mem_cons, Option.isSome_some, true_and]

/-- A reader of two fields that does not mind changes in either of them minds no change of their
record. -/
lemma respects_record {s t : Schema} (hne : first ≠ second)
    (hfirst : ∀ v w y, Rephrases s v w → read (some v) y = read (some w) y)
    (hsecond : ∀ x v w, Rephrases t v w → read x (some v) = read x (some w)) :
    Respects (record? first second read) (.record [(first, s), (second, t)]) := by
  have hother : some first ≠ some second := fun h => hne (Option.some.inj h)
  intro v w h
  cases h with
  | reorder h =>
    simp only [record?_object, member?_perm h, h.mem_iff]
  | @insert _ _ _ name _ h =>
    obtain ⟨hx, hy⟩ : name ≠ first ∧ name ≠ second := by simpa using h
    have hx' : some name ≠ some first := fun h => hx (Option.some.inj h)
    have hy' : some name ≠ some second := fun h => hy (Option.some.inj h)
    simp only [record?_object, forall_isSome_insert, member?_insert hx', member?_insert hy']
  | @list _ values h =>
    obtain ⟨x, y, rfl⟩ := List.length_eq_two.mp h
    change record? first second read (.object [(some first, x), (some second, y)]) =
      read (some x) (some y)
    simp [record?_object, member?, hne, hne.symm]
  | @member _ before after name u v w hfield h =>
    have hfield : name = first ∧ u = s ∨ name = second ∧ u = t := by simpa using hfield
    rcases hfield with ⟨rfl, rfl⟩ | ⟨rfl, rfl⟩
    · simp only [record?_object, forall_isSome_insert, member?_middle, member?_insert hother]
      split_ifs
      · rfl
      · simp only [Option.bind_some, hfirst v w _ h]
      · rfl
    · simp only [record?_object, forall_isSome_insert, member?_middle, member?_insert hother.symm]
      split_ifs
      · rfl
      · simp only [Option.bind_some, hsecond _ v w h]
      · rfl
  | @place _ before after name u v w hfield h =>
    cases before with
    | nil =>
      cases hfield
      cases after with
      | nil => exact hfirst v w none h
      | cons y after =>
        cases after with
        | nil => exact hfirst v w (some y) h
        | cons => rfl
    | cons x before =>
      cases before with
      | nil =>
        cases hfield
        cases after with
        | nil => exact hsecond (some x) v w h
        | cons => rfl
      | cons => cases hfield

end Record

/-! The record types. -/

lemma respects_entry : Respects (decode : Value → Option AbilityScore) .entry :=
  respects_record (by decide) (fun _ _ _ h => nomatch h) fun _ _ _ h => nomatch h

lemma respects_range : Respects (decode : Value → Option ScoreRange) .range :=
  respects_record (by decide) (fun _ _ _ h => nomatch h) fun _ _ _ h => nomatch h

lemma respects_config : Respects (decode : Value → Option Config) .config := by
  refine respects_record (by decide) (fun v w bonus h => ?_) fun _ _ _ h => nomatch h
  have hrange : optional Config.standard.scoreRoll (some v) =
      optional Config.standard.scoreRoll (some w) := respects_range v w h
  rw [hrange]

/-- An item of a list may be replaced by one that is read the same. -/
lemma forall₂_middle {α β γ : Type} {f : α → γ} {g : β → γ} {before after : List α} {a b : α}
    {cs : List β} (h : f a = f b) :
    List.Forall₂ (fun x c => f x = g c) (before ++ a :: after) cs ↔
      List.Forall₂ (fun x c => f x = g c) (before ++ b :: after) cs := by
  induction before generalizing cs with
  | nil => simp only [List.nil_append, List.forall₂_cons_left_iff, h]
  | cons first before ih => simp only [List.cons_append, List.forall₂_cons_left_iff, ih]

lemma respects_sheet : Respects (decode : Value → Option Sheet) .sheet := by
  have hsheet : Respects (record? "proficiency_bonus" "scores" sheet?) .sheet := by
    refine respects_record (by decide) (fun _ _ _ h => nomatch h) fun bonus v w h => ?_
    cases h with
    | item h =>
      ext s
      simp only [sheet?_eq_some_iff, Option.some_inj, Value.array.injEq, exists_eq_left']
      rw [forall₂_middle (respects_entry _ _ h)]
  intro v w h
  rw [decode_sheet, decode_sheet, hsheet v w h]

end CharacterSheet.Json
