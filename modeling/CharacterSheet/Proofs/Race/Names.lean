import CharacterSheet.Proofs.Json.RoundTrip
import CharacterSheet.Proofs.Text.Case
import CharacterSheet.Proofs.Text.Trim
import Mathlib.Logic.ExistsUnique

/-!
How texts name races. One reader knows a race by its data name up to the case of its letters, the
other by that name letter for letter; neither removes blanks, so the two agree wherever the second
gives an answer, and both undo every way in which a race is written.
-/
namespace CharacterSheet.RaceKind

open AsciiCase (Alike)
open Blank (isBlank)
open Json (Form)

variable {text : String} {k : RaceKind}

/-- No two data names agree, not even up to case. -/
lemma eq_of_identifiers_same {j k : RaceKind}
    (h : AsciiCase.Same j.identifier.toList k.identifier.toList) : j = k := by
  revert h
  cases j <;> cases k <;> decide

lemma parse?_eq_some_iff_same :
    parse? text = some k ↔ AsciiCase.Same text.toList k.identifier.toList := by
  rw [parse?]
  cases hfind : all.find? fun j => AsciiCase.Same text.toList j.identifier.toList with
  | none =>
    have hnone : ¬ AsciiCase.Same text.toList k.identifier.toList := by
      simpa using List.find?_eq_none.mp hfind k (mem_all k)
    simp [hnone]
  | some j =>
    have hj : AsciiCase.Same text.toList j.identifier.toList := by
      simpa using List.find?_some hfind
    constructor
    · rintro ⟨⟩
      exact hj
    · intro hk
      rw [eq_of_identifiers_same (hj.symm.trans hk)]

lemma parse?_eq_some_iff :
    parse? text = some k ↔ List.Forall₂ Alike text.toList k.identifier.toList := by
  rw [parse?_eq_some_iff_same, AsciiCase.same_iff_forall₂]

lemma isSome_parse?_iff : (parse? text).isSome ↔
    ∃! k : RaceKind, List.Forall₂ Alike text.toList k.identifier.toList := by
  simp only [← parse?_eq_some_iff, Option.isSome_iff_exists]
  constructor
  · rintro ⟨k, hk⟩
    exact ⟨k, hk, fun j hj => Option.some.inj (hj.symm.trans hk)⟩
  · rintro ⟨k, hk, -⟩
    exact ⟨k, hk⟩

/-- Texts that differ in case only are read alike, also when they name no race. -/
lemma parse?_congr {other : String} (h : AsciiCase.Same text.toList other.toList) :
    parse? text = parse? other := by
  ext k
  rw [parse?_eq_some_iff_same, parse?_eq_some_iff_same]
  exact ⟨h.symm.trans, h.trans⟩

lemma decode_string_eq_some_iff :
    (Form.decode (.string text) : Option RaceKind) = some k ↔ text = k.identifier := by
  change ofIdentifier? text = some k ↔ _
  constructor
  · intro h
    have hfound := List.find?_some h
    exact (of_decide_eq_true hfound).symm
  · rintro rfl
    exact ofIdentifier?_identifier k

/-! ### Texts that name no race -/

/-- Neither reader makes a race of a text. -/
def Refused (text : String) : Prop :=
  parse? text = none ∧ (Form.decode (.string text) : Option RaceKind) = none

/-- What the reader that minds no case refuses, the other refuses as well. -/
lemma refused_iff : Refused text ↔ parse? text = none := by
  refine ⟨And.left, fun h => ⟨h, Option.eq_none_iff_forall_ne_some.mpr fun k hk => ?_⟩⟩
  rw [decode_string_eq_some_iff.mp hk, parse?_identifier] at h
  contradiction

/-- A data name has no other characters than letters from A to Z and underscores. -/
lemma isAlpha_of_mem_identifier (k : RaceKind) {c : Char} (h : c ∈ k.identifier.toList) :
    c.isAlpha ∨ c = '_' := by
  have hall : k.identifier.toList.all fun c => c.isAlpha || c == '_' := by cases k <;> decide
  simpa using List.all_eq_true.mp hall c h

lemma refused_of_mem {c : Char} (hc : c ∈ text.toList) (halpha : ¬ c.isAlpha) (hline : c ≠ '_') :
    Refused text := by
  rw [refused_iff, Option.eq_none_iff_forall_ne_some]
  intro k hk
  obtain ⟨d, hd, hcd⟩ := (parse?_eq_some_iff_same.mp hk).exists_alike hc
  rcases isAlpha_of_mem_identifier k hd with hd | rfl
  · exact halpha (hcd.isAlpha hd)
  · exact hline (hcd.eq_of_not_isAlpha (by decide))

lemma refused_of_isBlank {c : Char} (hc : c ∈ text.toList) (hblank : isBlank c) : Refused text := by
  refine refused_of_mem hc (Blank.not_isAlpha_of_isBlank hblank) ?_
  rintro rfl
  exact absurd hblank (by decide)

/-- A name for people that has a space in it is no data name, in whatever case it is written. -/
lemma refused_of_name (h : AsciiCase.Same text.toList k.name.toList)
    (hspace : ' ' ∈ k.name.toList) : Refused text := by
  obtain ⟨c, hc, hcd⟩ := h.symm.exists_alike hspace
  have hc' : ' ' ∈ text.toList := (hcd.symm.eq_of_not_isAlpha (by decide)) ▸ hc
  exact refused_of_isBlank hc' (by decide)

/-- What is written of a race as data is read back. -/
lemma read?_write (k : RaceKind) : (Form.read? (Form.write k) : Option RaceKind) = some k := by
  have hfaithful : Json.Faithful RaceKind .scalar :=
    Json.faithful_of_respects Json.decode_encode_race (Json.respects_scalar _)
  exact hfaithful.read k _ _ .refl (Form.encode k).laidOut_text

/-- Each reader accepts its own spellings of the five data names and nothing else, and where both
accept they agree: one minds no case, the other minds every letter. Both read what is written of a
race, for show or as data, and both refuse texts with blanks, other separators or letters of other
alphabets, and names for people with a space in them. -/
theorem read_by_data_name :
    all.map identifier = ["human", "dwarf", "hill_dwarf", "elf", "high_elf"] ∧
    (∀ text k, parse? text = some k ↔ List.Forall₂ Alike text.toList k.identifier.toList) ∧
    (∀ text, (parse? text).isSome ↔
      ∃! k : RaceKind, List.Forall₂ Alike text.toList k.identifier.toList) ∧
    (∀ (text : String) (k : RaceKind), Form.decode (.string text) = some k ↔ text = k.identifier) ∧
    (∀ (text : String) (k : RaceKind), Form.decode (.string text) = some k →
      parse? text = some k) ∧
    (∀ k : RaceKind, parse? (toString k) = some k ∧ Form.decode (.string (toString k)) = some k ∧
      Form.encode k = .string (toString k) ∧ Form.read? (Form.write k) = some k) ∧
    (∀ text other, List.Forall₂ Alike text.toList other.toList → parse? other = parse? text) ∧
    (∀ text c, c ∈ text.toList → isBlank c → Refused text) ∧
    (∀ text c, c ∈ text.toList → ¬ c.isAlpha → c ≠ '_' → Refused text) ∧
    ∀ (text : String) (k : RaceKind), List.Forall₂ Alike text.toList k.name.toList →
      ' ' ∈ k.name.toList → Refused text := by
  refine ⟨rfl, fun _ _ => parse?_eq_some_iff, fun _ => isSome_parse?_iff,
    fun _ _ => decode_string_eq_some_iff, fun text k h => ?_,
    fun k => ⟨parse?_identifier k, decode_string_eq_some_iff.mpr rfl, rfl, read?_write k⟩,
    fun text other h => ?_, fun _ _ => refused_of_isBlank, fun _ _ => refused_of_mem,
    fun text k h => ?_⟩
  · rw [decode_string_eq_some_iff.mp h, parse?_identifier]
  · exact (parse?_congr (AsciiCase.same_iff_forall₂.mpr h)).symm
  · exact refused_of_name (AsciiCase.same_iff_forall₂.mpr h)

/-- A data name in capitals is read by one reader only, and a name with a space by neither. -/
theorem capitals_and_space :
    (parse? "HIGH_Elf" = some highElf ∧
      (Form.decode (.string "HIGH_Elf") : Option RaceKind) = none) ∧
    ' ' ∈ "High Elf".toList ∧ isBlank ' ' ∧ Refused "High Elf" := by
  obtain ⟨-, hparse, -, hdecode, -, -, -, hblank, -⟩ := read_by_data_name
  have hspace : ' ' ∈ "High Elf".toList := by decide
  refine ⟨⟨(hparse _ _).mpr (AsciiCase.same_iff_forall₂.mp (by decide)), ?_⟩, hspace, by decide,
    hblank _ _ hspace (by decide)⟩
  rw [Option.eq_none_iff_forall_ne_some]
  intro k hk
  have hne : ∀ k : RaceKind, "HIGH_Elf" ≠ k.identifier := by intro k; cases k <;> decide
  exact hne k ((hdecode _ _).mp hk)

end CharacterSheet.RaceKind
