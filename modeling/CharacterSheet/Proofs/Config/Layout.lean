import CharacterSheet.Proofs.Config.Parse
import CharacterSheet.Proofs.Toml.Layout

/-!
The ways to write a configuration: its range below a header, by dotted keys, as an inline table, or
as an array of the two bounds, among other keys with integers. All texts of these layouts state the
same configuration.
-/
namespace CharacterSheet.Config

open Toml (Value Entries DistinctKeys Statement LaidOut integerEntries integers)
open Toml.Statement (plain dotted)
open Digit (isWhole_cons)

/-- Other keys of a document, which no configuration reads, and their integers of 64 bits, with or
without a sign. -/
structure Others (others : List (String × ℤ)) : Prop where
  distinct : DistinctKeys others
  apart : ∀ other ∈ others, other.1 ∉ ["score_roll", "proficiency_bonus"]
  fits : ∀ other ∈ others,
    (∃ n : Int64, other.2 = n.toInt) ∨ ∃ n : UInt64, other.2 = n.toNat

/-- The bounds of a range by name. -/
def boundsOf (range : ScoreRange) : List (String × ℤ) :=
  [("min", range.min.toNat), ("max", range.max.toNat)]

/-- All that stands beside the range: the proficiency bonus, and other keys. -/
def besides (config : Config) (others : List (String × ℤ)) : List (String × ℤ) :=
  ("proficiency_bonus", config.proficiencyBonus.toNat) :: others

/-- A range as one value: a table of its bounds, or its bounds in order. -/
inductive Ranges (range : ScoreRange) : Value → Prop where
  | table {bounds : Entries} (h : bounds.Perm (integerEntries (boundsOf range))) :
    Ranges range (.table bounds)
  | array : Ranges range (.array (integers [range.min.toNat, range.max.toNat]))

/-- Statements that phrase a configuration: the range stands below a header, in dotted keys, or as
one value. What stands at the top of the document may be in any order, and so may the bounds. -/
inductive Phrased (config : Config) : List Statement → Prop where
  | header {others : List (String × ℤ)} {above below : List Statement} (hothers : Others others)
    (habove : above.Perm ((integerEntries (besides config others)).map plain))
    (hbelow : below.Perm ((integerEntries (boundsOf config.scoreRoll)).map plain)) :
    Phrased config (above ++ .table ⟨[], "score_roll"⟩ :: below)
  | dotted {others : List (String × ℤ)} {statements : List Statement} (hothers : Others others)
    (h : statements.Perm ((integerEntries (boundsOf config.scoreRoll)).map (dotted "score_roll") ++
      (integerEntries (besides config others)).map plain)) :
    Phrased config statements
  | whole {others : List (String × ℤ)} {statements : List Statement} {roll : Value}
    (hothers : Others others) (hroll : Ranges config.scoreRoll roll)
    (h : statements.Perm
      (plain ("score_roll", roll) :: (integerEntries (besides config others)).map plain)) :
    Phrased config statements

/-- A document with the range and what stands beside it, in any order. -/
inductive Documents (config : Config) : Entries → Prop where
  | mk {document : Entries} {roll : Value} {others : List (String × ℤ)}
    (hroll : Ranges config.scoreRoll roll) (hothers : Others others)
    (h : document.Perm (("score_roll", roll) :: integerEntries (besides config others))) :
    Documents config document

variable {config : Config} {document : Entries} {statements : List Statement}
  {others : List (String × ℤ)}

/-! ### The document of a phrasing -/

lemma map_fst_integerEntries (members : List (String × ℤ)) :
    (integerEntries members).map Prod.fst = members.map Prod.fst := by
  rw [integerEntries, List.map_map]
  rfl

lemma Others.not_mem {key : String} (h : Others others)
    (hkey : key ∈ ["score_roll", "proficiency_bonus"]) : key ∉ others.map Prod.fst := by
  intro hmem
  obtain ⟨other, hother, rfl⟩ := List.mem_map.mp hmem
  exact h.apart other hother hkey

/-- The range is not among what stands beside it. -/
lemma Others.score_roll_not_mem (h : Others others) :
    "score_roll" ∉ (integerEntries (besides config others)).map Prod.fst := by
  rw [map_fst_integerEntries, besides, List.map_cons, List.mem_cons, not_or]
  have hne : "score_roll" ≠ "proficiency_bonus" := by decide
  exact ⟨hne, h.not_mem (by decide)⟩

lemma Others.distinctKeys (h : Others others) :
    DistinctKeys (integerEntries (besides config others)) := by
  apply DistinctKeys.integerEntries
  have hbonus : "proficiency_bonus" ∉ others.map Prod.fst := h.not_mem (by decide)
  exact List.nodup_cons.mpr ⟨hbonus, h.distinct⟩

lemma distinctKeys_boundsOf (range : ScoreRange) :
    DistinctKeys (integerEntries (boundsOf range)) := by
  apply DistinctKeys.integerEntries
  change ["min", "max"].Nodup
  decide

lemma Phrased.exists_documents (h : Phrased config statements) :
    ∃ document, Entries.ofStatements? statements = some document ∧ Documents config document := by
  cases h with
  | header hothers habove hbelow =>
    obtain ⟨document, _, hdocument, hmembers, hperm⟩ :=
      Toml.document_of_header habove hbelow hothers.distinctKeys (distinctKeys_boundsOf _)
        hothers.score_roll_not_mem
    exact ⟨document, hdocument, .mk (.table hmembers) hothers hperm⟩
  | dotted hothers h =>
    obtain ⟨document, _, hdocument, hmembers, hperm⟩ :=
      Toml.document_of_dotted h (List.cons_ne_nil _ _) hothers.distinctKeys
        (distinctKeys_boundsOf _) hothers.score_roll_not_mem
    exact ⟨document, hdocument, .mk (.table hmembers) hothers hperm⟩
  | @whole others _ roll hothers hroll h =>
    have hkeys : DistinctKeys (("score_roll", roll) :: integerEntries (besides config others)) :=
      List.nodup_cons.mpr ⟨hothers.score_roll_not_mem, hothers.distinctKeys⟩
    obtain ⟨document, hdocument, hperm⟩ := Toml.document_of_plain h hkeys
    exact ⟨document, hdocument, .mk hroll hothers hperm⟩

/-! ### What a document states -/

lemma mem_bounds_iff {range : ScoreRange} {bounds : Entries}
    (h : bounds.Perm (integerEntries (boundsOf range))) {key : String} {value : Value} :
    (key, value) ∈ bounds ↔ key = "min" ∧ value = .integer range.min.toNat ∨
      key = "max" ∧ value = .integer range.max.toNat := by
  rw [h.mem_iff]
  simp [integerEntries, boundsOf]

/-- A range gives its two bounds. -/
lemma Ranges.bounds_iff {roll : Value} (h : Ranges config.scoreRoll roll) {slot : Slot}
    {value : Value} :
    Bounds roll slot value ↔ slot ≠ .bonus ∧ value = .integer (slot.of config).toNat := by
  cases h with
  | table h =>
    constructor
    · rintro (hmem | hmem)
      · simpa [Slot.of] using (mem_bounds_iff h).mp hmem
      · simpa [Slot.of] using (mem_bounds_iff h).mp hmem
    · rintro ⟨hslot, rfl⟩
      cases slot with
      | min => exact .min ((mem_bounds_iff h).mpr (.inl ⟨rfl, rfl⟩))
      | max => exact .max ((mem_bounds_iff h).mpr (.inr ⟨rfl, rfl⟩))
      | bonus => contradiction
  | array =>
    constructor
    · rintro (_ | _)
      · exact ⟨by decide, rfl⟩
      · exact ⟨by decide, rfl⟩
    · rintro ⟨hslot, rfl⟩
      cases slot with
      | min => exact .first
      | max => exact .second
      | bonus => contradiction

section Documents

variable {roll value : Value} (hothers : Others others)
  (h : document.Perm (("score_roll", roll) :: integerEntries (besides config others)))

include h

lemma mem_document_iff {key : String} :
    (key, value) ∈ document ↔ key = "score_roll" ∧ value = roll ∨
      key = "proficiency_bonus" ∧ value = .integer config.proficiencyBonus.toNat ∨
      ∃ n, (key, n) ∈ others ∧ value = .integer n := by
  rw [h.mem_iff, List.mem_cons, besides, integerEntries, List.map_cons, List.mem_cons,
    List.mem_map, Prod.mk.injEq, Prod.mk.injEq]
  refine or_congr_right (or_congr_right ?_)
  constructor
  · rintro ⟨⟨_, n⟩, hmem, ⟨⟩⟩
    exact ⟨n, hmem, rfl⟩
  · rintro ⟨n, hmem, rfl⟩
    exact ⟨(key, n), hmem, rfl⟩

include hothers

lemma roll_mem_iff : ("score_roll", value) ∈ document ↔ value = roll := by
  rw [mem_document_iff h]
  constructor
  · rintro (⟨-, hvalue⟩ | ⟨hkey, -⟩ | ⟨n, hmem, -⟩)
    · exact hvalue
    · exact absurd hkey (by decide)
    · exact absurd List.mem_cons_self (hothers.apart _ hmem)
  · exact fun hvalue => .inl ⟨rfl, hvalue⟩

lemma bonus_mem_iff :
    ("proficiency_bonus", value) ∈ document ↔ value = .integer config.proficiencyBonus.toNat := by
  rw [mem_document_iff h]
  constructor
  · rintro (⟨hkey, -⟩ | ⟨-, hvalue⟩ | ⟨n, hmem, -⟩)
    · exact absurd hkey (by decide)
    · exact hvalue
    · exact absurd (List.mem_cons_of_mem _ List.mem_cons_self) (hothers.apart _ hmem)
  · exact fun hvalue => .inr (.inl ⟨rfl, hvalue⟩)

end Documents

lemma Ranges.isRange {range : ScoreRange} {roll : Value} (h : Ranges range roll) :
    isRange roll := by
  cases h <;> rfl

/-- A document fills every slot with its part of the configuration. -/
lemma Documents.fills_iff (h : Documents config document) {slot : Slot} {value : Value} :
    Fills document slot value ↔ value = .integer (slot.of config).toNat := by
  obtain ⟨hroll, hothers, h⟩ := h
  constructor
  · rintro (hmem | ⟨hmem, hbounds⟩)
    · exact (bonus_mem_iff hothers h).mp hmem
    · cases (roll_mem_iff hothers h).mp hmem
      exact (hroll.bounds_iff.mp hbounds).2
  · rintro rfl
    by_cases hslot : slot = .bonus
    · rw [hslot]
      exact .bonus ((bonus_mem_iff hothers h).mpr rfl)
    · exact .bound ((roll_mem_iff hothers h).mpr rfl) (hroll.bounds_iff.mpr ⟨hslot, rfl⟩)

lemma holds_of_fits {n : ℤ} (h : (∃ m : Int64, n = m.toInt) ∨ ∃ m : UInt64, n = m.toNat) :
    (Value.integer n).holds := by
  change (decide (-2 ^ 127 ≤ n) && decide (n < 2 ^ 128)) = true
  rw [Bool.and_eq_true, decide_eq_true_eq, decide_eq_true_eq]
  rcases h with ⟨m, rfl⟩ | ⟨m, rfl⟩
  · have hlow := m.le_toInt
    have hhigh := m.toInt_lt
    omega
  · have hhigh := m.toNat_lt
    omega

lemma Documents.held (h : Documents config document) : Held document := by
  obtain ⟨hroll, hothers, h⟩ := h
  rintro value (⟨hmem, hkey⟩ | ⟨hmem, hbound, hkey⟩)
  · rcases (mem_document_iff h).mp hmem with ⟨rfl, -⟩ | ⟨rfl, -⟩ | ⟨n, hother, rfl⟩
    · exact absurd hkey (by decide)
    · exact absurd hkey (by decide)
    · exact holds_of_fits (hothers.fits _ hother)
  · cases (roll_mem_iff hothers h).mp hmem
    cases hroll with
    | table hbounds =>
      rcases (mem_bounds_iff hbounds).mp hbound with ⟨rfl, -⟩ | ⟨rfl, -⟩
      · exact absurd hkey (by decide)
      · exact absurd hkey (by decide)

lemma Documents.states (h : Documents config document) : States document config := by
  refine ⟨h.held, fun roll hmem => ?_, fun slot => ⟨fun _ hfills => h.fills_iff.mp hfills,
    fun habsent => absurd (h.fills_iff.mpr rfl) (habsent _)⟩⟩
  obtain ⟨hroll, hothers, h⟩ := h
  cases (roll_mem_iff hothers h).mp hmem
  exact hroll.isRange

/-- However a valid configuration is written, its text is read as this configuration. -/
theorem every_layout_is_read {cs : List Char} {text : String} (detail : String)
    (hrange : config.scoreRoll.min ≤ config.scoreRoll.max) (hphrased : Phrased config statements)
    (hlaid : LaidOut cs statements) (htext : text.toList = cs ∨ text.toList = '\uFEFF' :: cs) :
    parse text detail = .ok config := by
  obtain ⟨document, hdocument, hstates⟩ := hphrased.exists_documents
  have hread : Entries.read? text = some document := by rw [hlaid.read?_eq htext, hdocument]
  exact parse_ok_iff.mpr
    ⟨stated?_eq_some_iff.mpr ⟨document, hread, hstates.states⟩, hrange⟩

/-- Dotted keys among others, with blanks, a comment, an underscore and a byte order mark. -/
theorem dotted_layout_is_read :
    parse
        "\uFEFF# hero\nseed = -7\r\n\nproficiency_bonus=3\nscore_roll.max=2_0\nscore_roll.min=9"
        "" = .ok ⟨⟨9, 20⟩, 3⟩ := by
  have hroll : Toml.Bare "score_roll" := by decide
  have hnone : Toml.Blanks [] := List.forall_mem_nil _
  have hone : Toml.Blanks [' '] := by simp [Toml.Blanks, Toml.Quoted.isBlank]
  have hothers : Others [("seed", -7)] :=
    ⟨List.nodup_singleton _, by simp, List.forall_mem_singleton.mpr (.inl ⟨-7, by decide⟩)⟩
  have hseed : Statement.Spells _ (plain ("seed", .integer (-7))) :=
    .assign (.mk (.last (by decide) hone) (by decide) hone
      (.integer (.minus (.digits (d := 7) (isWhole_cons (by decide)) .nil))))
  have hbonus : Statement.Spells _ (plain ("proficiency_bonus", .integer 3)) :=
    .assign (.mk (.last (by decide) hnone) (by decide) hnone
      (.integer (.plain (.digits (d := 3) (isWhole_cons (by decide)) .nil))))
  have hmax : Statement.Spells _ (dotted "score_roll" ("max", .integer 20)) :=
    .assign (.mk (.dotted hroll hnone hnone (.last (by decide) hnone)) (by decide) hnone
      (.integer (.plain (.digits (d := 2) (isWhole_cons (by decide)) (.separated 0 .nil)))))
  have hmin : Statement.Spells _ (dotted "score_roll" ("min", .integer 9)) :=
    .assign (.mk (.dotted hroll hnone hnone (.last (by decide) hnone)) (by decide) hnone
      (.integer (.plain (.digits (d := 9) (isWhole_cons (by decide)) .nil))))
  have hhash : Toml.Comment ('#' :: " hero".toList) := .text (List.all_eq_true.mp (by decide))
  have hfeed : ∀ rest, Toml.EndsLine ([] ++ ([] ++ '\n' :: rest)) rest :=
    fun rest => .mk hnone .none .feed
  exact every_layout_is_read "" (by decide) (.dotted hothers (List.reverse_perm _))
    (.empty (.mk hnone hhash .feed) (.line hnone hseed (.mk hnone .none .returnFeed)
      (.empty (hfeed _) (.line hnone hbonus (hfeed _) (.line hnone hmax (hfeed _)
        (.line hnone hmin (.mk hnone .none .endOfText) .nil)))))) (.inr rfl)

end CharacterSheet.Config
