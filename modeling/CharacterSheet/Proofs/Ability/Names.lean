import CharacterSheet.Json.Form
import CharacterSheet.Proofs.Text.Case
import CharacterSheet.Proofs.Text.Trim

/-!
How keys name abilities. A key is read by the word in it: blanks around the word and the case of its
letters do not count, and only the code or the full name of an ability is a word that names it. The
names under which abilities are stored as data are among these.
-/
namespace CharacterSheet.Ability

open AsciiCase (Alike)
open Blank (Blanks Surrounds isBlank not_isAlpha_of_isBlank)

variable {key : String} {a b : Ability} {word : List Char}

lemma parse_eq_ok_iff : parse key = .ok a ↔ a.NamedBy key := by
  unfold parse
  cases hfind : all.find? (·.NamedBy key) with
  | none =>
    have hnone : ¬ a.NamedBy key := by simpa using List.find?_eq_none.mp hfind a (mem_all a)
    simp [hnone]
  | some b =>
    have hb : b.NamedBy key := by simpa using List.find?_some hfind
    constructor
    · rintro ⟨⟩
      exact hb
    · intro ha
      rw [eq_of_names_same hb ha]

/-- A key fails to be read only for naming no ability, and is then quoted as it was given. -/
lemma eq_unknownAbility_of_parse {e : AbilityError} (h : parse key = .error e) :
    e = .unknownAbility key := by
  unfold parse at h
  cases hfind : all.find? (·.NamedBy key) with
  | none =>
    rw [hfind] at h
    exact (Except.error.inj h).symm
  | some b =>
    rw [hfind] at h
    contradiction

/-- A word is the code or the full name of an ability, letter by letter, in any case. -/
def Worded (a : Ability) (word : List Char) : Prop :=
  List.Forall₂ Alike word a.code.toList ∨ List.Forall₂ Alike word a.name.toList

lemma worded_iff : a.Worded word ↔
    AsciiCase.Same word a.code.toList ∨ AsciiCase.Same word a.name.toList := by
  rw [Worded, ← AsciiCase.same_iff_forall₂, ← AsciiCase.same_iff_forall₂]

lemma namedBy_iff_worded_trim : a.NamedBy key ↔ a.Worded (Blank.trim key.toList) :=
  worded_iff.symm

lemma namedBy_iff : a.NamedBy key ↔ ∃ word, Surrounds key.toList word ∧ a.Worded word := by
  rw [namedBy_iff_worded_trim]
  constructor
  · intro h
    exact ⟨_, Blank.surrounds_trim _, h⟩
  · rintro ⟨word, hword, h⟩
    rwa [hword.trim_eq]

/-- No word names two abilities. -/
lemma Worded.unique (ha : a.Worded word) (hb : b.Worded word) : a = b :=
  eq_of_names_same (worded_iff.mp ha) (worded_iff.mp hb)

lemma isAlpha_of_mem_name (a : Ability) :
    (∀ c ∈ a.code.toList, c.isAlpha) ∧ ∀ c ∈ a.name.toList, c.isAlpha := by
  have hall : a.code.toList.all Char.isAlpha ∧ a.name.toList.all Char.isAlpha := by
    cases a <;> decide
  exact ⟨List.all_eq_true.mp hall.1, List.all_eq_true.mp hall.2⟩

/-- A word that names an ability has no other characters than the letters A to Z. -/
lemma Worded.isAlpha (h : a.Worded word) {c : Char} (hc : c ∈ word) : c.isAlpha := by
  have hletters : ∀ name : List Char, (∀ d ∈ name, d.isAlpha) → AsciiCase.Same word name →
      c.isAlpha := by
    intro name hname hsame
    obtain ⟨d, hd, hcd⟩ := hsame.exists_alike hc
    exact hcd.isAlpha (hname d hd)
  rcases worded_iff.mp h with h | h
  · exact hletters _ (isAlpha_of_mem_name a).1 h
  · exact hletters _ (isAlpha_of_mem_name a).2 h

lemma parse_eq_unknownAbility_iff : parse key = .error (.unknownAbility key) ↔
    ∀ word, Surrounds key.toList word → ∀ a : Ability, ¬ a.Worded word := by
  constructor
  · intro h word hword a ha
    rw [parse_eq_ok_iff.mpr (namedBy_iff.mpr ⟨word, hword, ha⟩)] at h
    cases h
  · intro h
    cases hparse : parse key with
    | ok a =>
      obtain ⟨word, hword, ha⟩ := namedBy_iff.mp (parse_eq_ok_iff.mp hparse)
      exact absurd ha (h word hword a)
    | error e => rw [eq_unknownAbility_of_parse hparse]

/-- A key with anything but letters from A to Z in its word names no ability. -/
lemma parse_of_not_isAlpha (hword : Surrounds key.toList word) {c : Char} (hc : c ∈ word)
    (halpha : ¬ c.isAlpha) : parse key = .error (.unknownAbility key) := by
  rw [parse_eq_unknownAbility_iff]
  intro other hother a ha
  rw [← hother.trim_eq, hword.trim_eq] at ha
  exact halpha (ha.isAlpha hc)

/-! ### Changes to a key that do not count -/

lemma isBlank_toLower (c : Char) : isBlank c.toLower = isBlank c := by
  rcases AsciiCase.toLower_cases c with ⟨i, rfl⟩ | h
  · decide +revert
  · rw [h]

lemma fold_trim (cs : List Char) :
    AsciiCase.fold (Blank.trim cs) = Blank.trim (AsciiCase.fold cs) := by
  have hblank : isBlank ∘ Char.toLower = isBlank := funext isBlank_toLower
  simp only [AsciiCase.fold, Blank.trim, Blank.trimEnd, Blank.trimStart, ← List.map_reverse,
    List.dropWhile_map, hblank]

/-- Keys that differ in case only name the same abilities. -/
lemma namedBy_congr {other : String} (h : AsciiCase.Same key.toList other.toList) :
    a.NamedBy key ↔ a.NamedBy other := by
  have htrim : AsciiCase.Same (Blank.trim key.toList) (Blank.trim other.toList) := by
    rw [AsciiCase.Same, fold_trim, fold_trim, h]
  constructor
  · exact Or.imp htrim.symm.trans htrim.symm.trans
  · exact Or.imp htrim.trans htrim.trans

lemma namedBy_pad {before after : List Char} (hbefore : Blanks before) (hafter : Blanks after)
    (h : a.NamedBy key) : a.NamedBy (String.ofList (before ++ key.toList ++ after)) := by
  obtain ⟨word, hword, ha⟩ := namedBy_iff.mp h
  rw [namedBy_iff, String.toList_ofList]
  exact ⟨word, hword.pad hbefore hafter, ha⟩

lemma parse_code (a : Ability) : parse a.code = .ok a := by
  rw [parse_eq_ok_iff]
  cases a <;> decide

lemma parse_name (a : Ability) : parse a.name = .ok a := by
  rw [parse_eq_ok_iff]
  cases a <;> decide

/-- The ability read from data is the one that the name in the data is. -/
lemma name_eq_of_decode {value : Json.Value} {name : String}
    (hname : Json.Form.name? value = some name)
    (h : Json.Form.decode value = some a) : a.name = name := by
  change (Json.Form.name? value).bind _ = some a at h
  rw [hname] at h
  simpa using List.find?_some h

example : parse "\u2003Dexterity\n" = .ok dexterity := by decide

end CharacterSheet.Ability
