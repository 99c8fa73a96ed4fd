import CharacterSheet.Proofs.Json.Rephrasing

/-!
Which JSON values stand for which entries, sheets, ranges and configurations, said without any
reader: a byte is a number of digits only, a record says each of its fields at most once, and a
default stands for a field of which nothing is said, never for one that is said wrongly. The readers
accept exactly these values.
-/
namespace CharacterSheet.Json

open Form

def IsByte (v : Value) (n : UInt8) : Prop := v = .number (.ofNat n.toNat)

def IsMark (v : Value) (b : Bool) : Prop := v = .bool b

/-- What is said of a field that must be given. -/
def Given {α : Type} (Is : Value → α → Prop) (field : Option Value) (a : α) : Prop :=
  ∃ value, field = some value ∧ Is value a

/-- What is said of a field that may be left out. -/
inductive Holds {α : Type} (Is : Value → α → Prop) (default : α) : Option Value → α → Prop where
  | absent : Holds Is default none default
  | given {value : Value} {a : α} (h : Is value a) : Holds Is default (some value) a

/-- The two fields of an entry are both given. -/
def IsEntry (v : Value) (x : AbilityScore) : Prop :=
  ∃ score proficient, Record "score" "proficient" v score proficient ∧
    Given IsByte score x.score ∧ Given IsMark proficient x.proficient

/-- The entries of a sheet are six in number and in canonical order. -/
def AreScores (v : Value) (s : Sheet) : Prop :=
  ∃ entries, v = .array entries ∧
    List.Forall₂ (fun entry a => IsEntry entry (s.get a)) entries Ability.all

def IsSheet (v : Value) (s : Sheet) : Prop :=
  ∃ bonus scores, Record "proficiency_bonus" "scores" v bonus scores ∧
    Given IsByte bonus s.proficiencyBonus ∧ Given AreScores scores s

/-- Nothing is said about the order of the two bounds. -/
def IsRange (v : Value) (range : ScoreRange) : Prop :=
  ∃ min max, Record "min" "max" v min max ∧ Holds IsByte 8 min range.min ∧
    Holds IsByte 18 max range.max

def IsConfig (v : Value) (config : Config) : Prop :=
  ∃ range bonus, Record "score_roll" "proficiency_bonus" v range bonus ∧
    Holds IsRange ⟨8, 18⟩ range config.scoreRoll ∧ Holds IsByte 2 bonus config.proficiencyBonus

/-- Something is said of a field that says no value of its type. -/
def Misstated {α : Type} (Is : Value → α → Prop) (field : Option Value) : Prop :=
  ∃ value, field = some value ∧ ∀ a, ¬ Is value a

/-- The reader of a type accepts exactly what the relation says. -/
def Reads (α : Type) [Form α] (Is : Value → α → Prop) : Prop :=
  ∀ v (a : α), decode v = some a ↔ Is v a

section Fields

variable {α : Type} {Is : Value → α → Prop} {a : α} {field : Option Value}

lemma holds_some_iff {default : α} {value : Value} : Holds Is default (some value) a ↔ Is value a :=
  ⟨fun | .given h => h, .given⟩

/-- A default does not replace what is said wrongly. -/
lemma Misstated.not_holds {default : α} (h : Misstated Is field) : ¬ Holds Is default field a := by
  obtain ⟨value, rfl, hvalue⟩ := h
  rw [holds_some_iff]
  exact hvalue a

variable [Form α]

lemma Reads.required (h : Reads α Is) : required field = some a ↔ Given Is field a := by
  rw [Form.required, Option.bind_eq_some_iff]
  exact exists_congr fun value => and_congr_right fun _ => h value a

lemma Reads.optional (h : Reads α Is) {default : α} :
    optional default field = some a ↔ Holds Is default field a := by
  cases field with
  | none =>
    constructor
    · rintro ⟨⟩
      exact .absent
    · rintro ⟨⟩
      rfl
  | some value =>
    rw [holds_some_iff]
    exact h value a

end Fields

lemma bind_both_eq_some_iff {α β γ : Type} {x : Option α} {y : Option β} {f : α → β → γ} {c : γ} :
    (x.bind fun a => y.bind fun b => some (f a b)) = some c ↔
      ∃ a b, x = some a ∧ y = some b ∧ f a b = c := by
  simp [Option.bind_eq_some_iff]

lemma reads_byte : Reads UInt8 IsByte := by
  intro v n
  have hlt := n.toNat_lt
  constructor
  · intro h
    cases v with
    | number x =>
      obtain ⟨k, hk, h⟩ := Option.bind_eq_some_iff.mp h
      rw [Number.natural?_eq_some_iff] at hk
      split at h
      · cases h
        rw [IsByte, hk, UInt8.toNat_ofNat_of_lt' (by assumption)]
      · cases h
    | _ => cases h
  · rintro rfl
    change (Number.natural? (.ofNat n.toNat)).bind _ = _
    rw [Number.natural?_ofNat, Option.bind_some, if_pos hlt, UInt8.ofNat_toNat]

lemma reads_mark : Reads Bool IsMark := by
  intro v b
  constructor
  · intro h
    cases v with
    | bool c =>
      cases h
      rfl
    | _ => cases h
  · rintro rfl
    rfl

lemma reads_entry : Reads AbilityScore IsEntry := by
  intro v x
  rw [decode_entry, record?_eq_some_iff]
  refine exists_congr fun score => exists_congr fun proficient => and_congr_right fun _ => ?_
  rw [← reads_byte.required, ← reads_mark.required, bind_both_eq_some_iff]
  constructor
  · rintro ⟨_, _, hscore, hproficient, rfl⟩
    exact ⟨hscore, hproficient⟩
  · rintro ⟨hscore, hproficient⟩
    exact ⟨_, _, hscore, hproficient, rfl⟩

lemma reads_sheet : Reads Sheet IsSheet := by
  intro v s
  rw [decode_sheet, record?_eq_some_iff]
  refine exists_congr fun bonus => exists_congr fun scores => and_congr_right fun _ => ?_
  rw [sheet?_eq_some_iff, ← reads_byte.required]
  refine and_congr_right fun _ => ?_
  constructor
  · rintro ⟨entries, rfl, h⟩
    exact ⟨_, rfl, entries, rfl, h.imp fun _ _ => (reads_entry _ _).mp⟩
  · rintro ⟨_, rfl, entries, rfl, h⟩
    exact ⟨entries, rfl, h.imp fun _ _ => (reads_entry _ _).mpr⟩

lemma reads_range : Reads ScoreRange IsRange := by
  intro v range
  rw [decode_range, record?_eq_some_iff]
  refine exists_congr fun min => exists_congr fun max => and_congr_right fun _ => ?_
  rw [← reads_byte.optional, ← reads_byte.optional, bind_both_eq_some_iff]
  constructor
  · rintro ⟨_, _, hmin, hmax, rfl⟩
    exact ⟨hmin, hmax⟩
  · rintro ⟨hmin, hmax⟩
    exact ⟨_, _, hmin, hmax, rfl⟩

lemma reads_config : Reads Config IsConfig := by
  intro v config
  rw [decode_config, record?_eq_some_iff]
  refine exists_congr fun range => exists_congr fun bonus => and_congr_right fun _ => ?_
  rw [← reads_range.optional, ← reads_byte.optional, bind_both_eq_some_iff]
  constructor
  · rintro ⟨_, _, hrange, hbonus, rfl⟩
    exact ⟨hrange, hbonus⟩
  · rintro ⟨hrange, hbonus⟩
    exact ⟨_, _, hrange, hbonus, rfl⟩

section Misstated

variable {v : Value} {x y : Option Value}

lemma decode_range_of_misstated (h : Record "min" "max" v x y)
    (hxy : Misstated IsByte x ∨ Misstated IsByte y) : (decode v : Option ScoreRange) = none := by
  rw [Option.eq_none_iff_forall_ne_some]
  intro range hrange
  obtain ⟨min, max, hrecord, hmin, hmax⟩ := (reads_range v range).mp hrange
  obtain ⟨rfl, rfl⟩ := h.unique hrecord
  rcases hxy with h | h
  · exact h.not_holds hmin
  · exact h.not_holds hmax

lemma decode_config_of_misstated (h : Record "score_roll" "proficiency_bonus" v x y)
    (hxy : Misstated IsRange x ∨ Misstated IsByte y) : (decode v : Option Config) = none := by
  rw [Option.eq_none_iff_forall_ne_some]
  intro config hconfig
  obtain ⟨range, bonus, hrecord, hrange, hbonus⟩ := (reads_config v config).mp hconfig
  obtain ⟨rfl, rfl⟩ := h.unique hrecord
  rcases hxy with h | h
  · exact h.not_holds hrange
  · exact h.not_holds hbonus

end Misstated

/-! What is written is what is read. -/

lemma isEntry_encode (x : AbilityScore) : IsEntry (encode x) x :=
  ⟨_, _, .pair (by decide), ⟨_, rfl, rfl⟩, ⟨_, rfl, rfl⟩⟩

lemma areScores_encode (s : Sheet) :
    AreScores (.array (Ability.all.map fun a => encode (s.get a))) s := by
  refine ⟨_, rfl, ?_⟩
  rw [List.forall₂_map_left_iff, List.forall₂_same]
  exact fun a _ => isEntry_encode (s.get a)

lemma isSheet_encode (s : Sheet) : IsSheet (encode s) s :=
  ⟨_, _, .pair (by decide), ⟨_, rfl, rfl⟩, ⟨_, rfl, areScores_encode s⟩⟩

lemma isRange_encode (range : ScoreRange) : IsRange (encode range) range :=
  ⟨_, _, .pair (by decide), .given rfl, .given rfl⟩

lemma isConfig_encode (config : Config) : IsConfig (encode config) config :=
  ⟨_, _, .pair (by decide), .given (isRange_encode config.scoreRoll), .given rfl⟩

/-- The readers of the four record types accept exactly their formats: a range or a configuration is
refused, not defaulted, where a field is said wrongly, the two bounds of a range may stand in either
order, and no change in the order of members, in members of unknown names or from an object to an
array makes a difference to what is read, at any depth. -/
theorem records_read_exactly :
    Reads AbilityScore IsEntry ∧ Reads Sheet IsSheet ∧ Reads ScoreRange IsRange ∧
    Reads Config IsConfig ∧
    (∀ v x y, Record "min" "max" v x y → Misstated IsByte x ∨ Misstated IsByte y →
      (decode v : Option ScoreRange) = none) ∧
    (∀ v x y, Record "score_roll" "proficiency_bonus" v x y →
      Misstated IsRange x ∨ Misstated IsByte y → (decode v : Option Config) = none) ∧
    (∀ range : ScoreRange, decode (encode range) = some range) ∧
    (∀ config : Config, decode (encode config) = some config) ∧
    (∀ v w, Paraphrase .entry v w → (decode v : Option AbilityScore) = decode w) ∧
    (∀ v w, Paraphrase .sheet v w → (decode v : Option Sheet) = decode w) ∧
    (∀ v w, Paraphrase .range v w → (decode v : Option ScoreRange) = decode w) ∧
    (∀ v w, Paraphrase .config v w → (decode v : Option Config) = decode w) where
  left := reads_entry
  right := ⟨reads_sheet, reads_range, reads_config,
    fun _ _ _ => decode_range_of_misstated,
    fun _ _ _ => decode_config_of_misstated,
    fun range => (reads_range _ _).mpr (isRange_encode range),
    fun config => (reads_config _ _).mpr (isConfig_encode config),
    fun _ _ => respects_entry.paraphrase,
    fun _ _ => respects_sheet.paraphrase,
    fun _ _ => respects_range.paraphrase,
    fun _ _ => respects_config.paraphrase⟩

/-- A range that gives null for a bound is refused, and so is one with a member of an unknown name
in front of it. -/
theorem null_bound_is_refused :
    let v : Value := .object [(some "min", .null)]
    let w : Value := .object [(some "note", .bool true), (some "min", .null)]
    Record "min" "max" v (some .null) none ∧ Misstated IsByte (some .null) ∧
      (decode v : Option ScoreRange) = none ∧ Paraphrase .range v w ∧
      (decode w : Option ScoreRange) = none := by
  intro v w
  have hrecord : Record "min" "max" v (some .null) none :=
    .object (by simp) (.given (by simp) (by simp)) (.absent (by simp))
  have hmisstated : Misstated IsByte (some .null) := ⟨.null, rfl, nofun⟩
  have hparaphrase : Paraphrase .range v w :=
    .single (@Rephrases.insert _ [] [(some "min", .null)] "note" (.bool true) (by decide))
  have hv : (decode v : Option ScoreRange) = none :=
    records_read_exactly.2.2.2.2.1 v _ _ hrecord (.inl hmisstated)
  have hvw : (decode v : Option ScoreRange) = decode w :=
    records_read_exactly.2.2.2.2.2.2.2.2.2.2.1 v w hparaphrase
  exact ⟨hrecord, hmisstated, hv, hparaphrase, hvw ▸ hv⟩

end CharacterSheet.Json
