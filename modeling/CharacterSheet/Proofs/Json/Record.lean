import CharacterSheet.Json.Form
import Mathlib.Data.List.Forall2
import Mathlib.Tactic.SplitIfs

/-!
What a JSON value says as a record of two fields. Every record type of the library is read by way of
its two fields, and what is read depends on nothing else in the value.
-/
namespace CharacterSheet.Json

open Form

/-- What the members of an object say about a field: nothing, or the value that stands under its
name, which no other member has. -/
inductive Field (members : List (Literal × Value)) (name : String) : Option Value → Prop where
  | absent (h : some name ∉ members.map Prod.fst) : Field members name none
  | given {value : Value} (h : (some name, value) ∈ members)
    (honce : (members.map Prod.fst).count (some name) = 1) : Field members name (some value)

/-- What a value says about the two fields of a record. An object gives them by name, in any order
and among other members; an array gives them by place, and nothing after them. -/
inductive Record (first second : String) : Value → Option Value → Option Value → Prop where
  | object {members : List (Literal × Value)} {x y : Option Value}
    (htexts : ∀ member ∈ members, member.1.isSome) (hx : Field members first x)
    (hy : Field members second y) : Record first second (.object members) x y
  | none : Record first second (.array []) none none
  | one {x : Value} : Record first second (.array [x]) (some x) none
  | both {x y : Value} : Record first second (.array [x, y]) (some x) (some y)

section Members

variable {members others : List (Literal × Value)} {name : String}

/-- The members of a name are as many as the name occurs. -/
lemma length_filter_name (members : List (Literal × Value)) (name : String) :
    (members.filter (·.1 = some name)).length = (members.map Prod.fst).count (some name) := by
  induction members with
  | nil => rfl
  | cons member members ih =>
    rw [List.map_cons, List.count_cons, ← ih]
    by_cases h : member.1 = some name <;> simp [h]

lemma member?_eq_some_iff {field : Option Value} :
    member? members name = some field ↔ Field members name field := by
  have hcount := length_filter_name members name
  have hmem : ∀ value, (some name, value) ∈ members.filter (·.1 = some name) ↔
      (some name, value) ∈ members := by simp
  rw [member?]
  cases hfilter : members.filter (·.1 = some name) with
  | nil =>
    rw [hfilter, List.length_nil] at hcount
    have hnone : some name ∉ members.map Prod.fst := List.count_eq_zero.mp hcount.symm
    constructor
    · rintro ⟨⟩
      exact .absent hnone
    · rintro (_ | ⟨h, _⟩)
      · rfl
      · exact absurd (List.mem_map_of_mem h) hnone
  | cons member rest =>
    obtain ⟨key, value⟩ := member
    have hkey : key = some name := by
      have h : (key, value) ∈ members.filter (·.1 = some name) := by simp [hfilter]
      simpa using (List.mem_filter.mp h).2
    subst hkey
    have hvalue : (some name, value) ∈ members := (hmem value).mp (by simp [hfilter])
    rw [hfilter, List.length_cons] at hcount
    cases rest with
    | nil =>
      constructor
      · rintro ⟨⟩
        exact .given hvalue hcount.symm
      · rintro (h | ⟨h, _⟩)
        · exact absurd (List.mem_map_of_mem hvalue) h
        · rw [← hmem, hfilter, List.mem_singleton, Prod.mk.injEq] at h
          rw [h.2]
    | cons second rest =>
      rw [List.length_cons] at hcount
      constructor
      · rintro ⟨⟩
      · rintro (h | ⟨_, honce⟩)
        · exact absurd (List.mem_map_of_mem hvalue) h
        · omega

lemma Field.perm {field : Option Value} (h : members.Perm others)
    (hfield : Field members name field) :
    Field others name field := by
  have hnames := h.map Prod.fst
  cases hfield with
  | absent hnone => exact .absent fun hmem => hnone (hnames.mem_iff.mpr hmem)
  | given hmem honce => exact .given (h.mem_iff.mp hmem) (hnames.count_eq _ ▸ honce)

/-- The order of the members does not matter. -/
lemma member?_perm (h : members.Perm others) (name : String) :
    member? members name = member? others name := by
  ext field
  rw [member?_eq_some_iff, member?_eq_some_iff]
  exact ⟨.perm h, .perm h.symm⟩

variable {before after : List (Literal × Value)} {value : Value}

/-- A member of another name says nothing about a field. -/
lemma member?_insert {key : Literal} (h : key ≠ some name) :
    member? (before ++ (key, value) :: after) name = member? (before ++ after) name := by
  simp [member?, h]

/-- A member gives its field unless another has the same name. -/
lemma member?_middle :
    member? (before ++ (some name, value) :: after) name =
      if some name ∈ (before ++ after).map Prod.fst then none else some (some value) := by
  have hcount : ((before ++ (some name, value) :: after).map Prod.fst).count (some name) =
      ((before ++ after).map Prod.fst).count (some name) + 1 := by
    rw [(List.perm_middle.map Prod.fst).count_eq, List.map_cons, List.count_cons_self]
  have hmem : (some name, value) ∈ before ++ (some name, value) :: after := by simp
  split_ifs with h
  · rw [Option.eq_none_iff_forall_ne_some]
    intro field hfield
    cases member?_eq_some_iff.mp hfield with
    | absent hnone => exact hnone (List.mem_map_of_mem hmem)
    | given _ honce =>
      have := List.count_pos_iff.mpr h
      omega
  · rw [member?_eq_some_iff]
    exact .given hmem (by rw [hcount, List.count_eq_zero.mpr h])

end Members

section Fields

variable {first second : String} {v : Value}

lemma fields?_object (members : List (Literal × Value)) :
    fields? [first, second] (.object members) =
      if ∀ member ∈ members, member.1.isSome then
        (member? members first).bind fun x => (member? members second).map fun y => [x, y]
      else none := by
  rw [fields?]
  simp only [List.all_eq_true, List.mapM_cons, List.mapM_nil]
  split_ifs
  · cases member? members first <;> cases member? members second <;> rfl
  · rfl

/-- The fields of a record are what its value says about them. -/
lemma fields?_eq_some_iff {fields : List (Option Value)} :
    fields? [first, second] v = some fields ↔
      ∃ x y, Record first second v x y ∧ fields = [x, y] := by
  cases v with
  | object members =>
    rw [fields?_object]
    constructor
    · intro h
      split_ifs at h with htexts
      obtain ⟨x, hx, h⟩ := Option.bind_eq_some_iff.mp h
      obtain ⟨y, hy, rfl⟩ := Option.map_eq_some_iff.mp h
      exact ⟨x, y, .object htexts (member?_eq_some_iff.mp hx) (member?_eq_some_iff.mp hy), rfl⟩
    · rintro ⟨x, y, ⟨htexts, hx, hy⟩, rfl⟩
      rw [if_pos htexts, member?_eq_some_iff.mpr hx, member?_eq_some_iff.mpr hy]
      rfl
  | array items =>
    match items with
    | [] | [_] | [_, _] =>
      constructor
      · rintro ⟨⟩
        exact ⟨_, _, by constructor, rfl⟩
      · rintro ⟨_, _, ⟨⟩, rfl⟩
        rfl
    | _ :: _ :: _ :: _ =>
      constructor
      · intro h
        simp [fields?] at h
      · rintro ⟨_, _, ⟨⟩, rfl⟩
  | _ =>
    constructor
    · rintro ⟨⟩
    · rintro ⟨_, _, ⟨⟩, _⟩

/-- Reads a record by way of its two fields. -/
def record? {α : Type} (first second : String) (read : Option Value → Option Value → Option α)
    (v : Value) : Option α :=
  (fields? [first, second] v).bind fun
    | [x, y] => read x y
    | _ => none

lemma record?_eq_some_iff {α : Type} {read : Option Value → Option Value → Option α} {a : α} :
    record? first second read v = some a ↔
      ∃ x y, Record first second v x y ∧ read x y = some a := by
  rw [record?, Option.bind_eq_some_iff]
  constructor
  · rintro ⟨_, hfields, hread⟩
    obtain ⟨x, y, hrecord, rfl⟩ := fields?_eq_some_iff.mp hfields
    exact ⟨x, y, hrecord, hread⟩
  · rintro ⟨x, y, hrecord, hread⟩
    exact ⟨[x, y], fields?_eq_some_iff.mpr ⟨x, y, hrecord, rfl⟩, hread⟩

/-- A value says one thing about each field. -/
lemma Record.unique {x y z w : Option Value} (h : Record first second v x y)
    (h' : Record first second v z w) : x = z ∧ y = w := by
  have hfields := fields?_eq_some_iff.mpr ⟨x, y, h, rfl⟩
  rw [fields?_eq_some_iff.mpr ⟨z, w, h', rfl⟩] at hfields
  cases hfields
  exact ⟨rfl, rfl⟩

/-- The object of the two fields in order. -/
lemma Record.pair {x y : Value} (hne : first ≠ second) :
    Record first second (.object [(some first, x), (some second, y)]) (some x) (some y) := by
  refine .object (by simp) (.given (by simp) ?_) (.given (by simp) ?_)
  · simp [hne.symm]
  · simp [hne]

end Fields

/-! The readers of the four record types. -/

lemma decode_entry (v : Value) : (decode v : Option AbilityScore) =
    record? "score" "proficient" (fun score proficient =>
      (required score).bind fun score =>
        (required proficient).bind fun proficient => some ⟨score, proficient⟩) v := rfl

lemma decode_range (v : Value) : (decode v : Option ScoreRange) =
    record? "min" "max" (fun min max =>
      (optional 8 min).bind fun min => (optional 18 max).bind fun max => some ⟨min, max⟩) v := rfl

lemma decode_config (v : Value) : (decode v : Option Config) =
    record? "score_roll" "proficiency_bonus" (fun range bonus =>
      (optional ⟨8, 18⟩ range).bind fun range => (optional 2 bonus).bind fun bonus =>
        some ⟨range, bonus⟩) v := rfl

/-- The sheet of a bonus and of an array of exactly six entries. -/
def sheet? (bonus : Option Value) : Option Value → Option Sheet
  | some (.array [str, dex, con, int, wis, cha]) => do
    some ⟨← required bonus, ← decode str, ← decode dex, ← decode con, ← decode int, ← decode wis,
      ← decode cha⟩
  | _ => none

lemma decode_sheet (v : Value) : (decode v : Option Sheet) =
    record? "proficiency_bonus" "scores" sheet? v := by
  refine congrArg (Option.bind (fields? _ v)) (funext fun fields => ?_)
  split
  · rfl
  · rename_i hne
    match fields with
    | [bonus, scores] =>
      change none = sheet? bonus scores
      rw [sheet?.eq_def]
      split
      · exact absurd rfl (hne _ _ _ _ _ _ _)
      · rfl
    | [] | [_] | _ :: _ :: _ :: _ => rfl

/-- The entries of a sheet are six in number and in canonical order. -/
lemma sheet?_eq_some_iff {bonus scores : Option Value} {s : Sheet} :
    sheet? bonus scores = some s ↔ required bonus = some s.proficiencyBonus ∧
      ∃ items, scores = some (.array items) ∧
        List.Forall₂ (fun item a => decode item = some (s.get a)) items Ability.all := by
  constructor
  · intro h
    rw [sheet?.eq_def] at h
    split at h
    · obtain ⟨_, hbonus, h⟩ := Option.bind_eq_some_iff.mp h
      obtain ⟨_, hstr, h⟩ := Option.bind_eq_some_iff.mp h
      obtain ⟨_, hdex, h⟩ := Option.bind_eq_some_iff.mp h
      obtain ⟨_, hcon, h⟩ := Option.bind_eq_some_iff.mp h
      obtain ⟨_, hint, h⟩ := Option.bind_eq_some_iff.mp h
      obtain ⟨_, hwis, h⟩ := Option.bind_eq_some_iff.mp h
      obtain ⟨_, hcha, h⟩ := Option.bind_eq_some_iff.mp h
      cases h
      exact ⟨hbonus, _, rfl,
        .cons hstr (.cons hdex (.cons hcon (.cons hint (.cons hwis (.cons hcha .nil)))))⟩
    · cases h
  · rintro ⟨hbonus, items, rfl, h⟩
    obtain _ | ⟨hstr, _ | ⟨hdex, _ | ⟨hcon, _ | ⟨hint, _ | ⟨hwis, _ | ⟨hcha, _ | _⟩⟩⟩⟩⟩⟩ := h
    simp only [sheet?, hbonus, hstr, hdex, hcon, hint, hwis, hcha]
    rfl

end CharacterSheet.Json
