import CharacterSheet.Proofs.Json.Decoding
import CharacterSheet.Proofs.Json.Layout

/-!
Reading undoes writing. What is written of a value is one of many texts that say the same: its
records may be rephrased and its tokens may be spelled and spaced in any way, and all these texts
are read as that value and as no other.
-/
namespace CharacterSheet.Json

open Form

/-- All the texts that say a value are read as it, whatever was read is kept by writing it and
reading it again, and no two values are written alike. -/
structure Faithful (α : Type) [Form α] (s : Schema) : Prop where
  read : ∀ (a : α) (v : Value) (text : String), Paraphrase s (encode a) v → v.LaidOut text →
    read? text = some a
  rewrite : ∀ text written : String, (read? text : Option α).map write = some written →
    (read? written : Option α).map write = some written
  injective : Function.Injective (write : α → String)

section

variable {α : Type} [Form α] {s : Schema}

/-- A reader that undoes the writer of values and does not mind rephrasing is faithful on texts. -/
lemma faithful_of_respects (hdecode : ∀ a : α, decode (encode a) = some a)
    (hrespects : Respects (decode : Value → Option α) s) : Faithful α s := by
  have hread : ∀ (a : α) (v : Value) (text : String), Paraphrase s (encode a) v →
      v.LaidOut text → read? text = some a := by
    intro a v text hparaphrase hlaid
    rw [Form.read?, hlaid.read?]
    exact (hrespects.paraphrase hparaphrase).symm.trans (hdecode a)
  have hwrite : ∀ a : α, read? (write a) = some a :=
    fun a => hread a _ _ .refl (encode a).laidOut_text
  refine ⟨hread, fun text written h => ?_, fun a b h => ?_⟩
  · obtain ⟨a, -, rfl⟩ := Option.map_eq_some_iff.mp h
    rw [hwrite a, Option.map_some]
  · have hab := hwrite a
    rw [h, hwrite b] at hab
    exact (Option.some.inj hab).symm

end

lemma decode_encode_ability (a : Ability) : decode (encode a) = some a := by
  cases a <;> rfl

lemma decode_encode_race (k : RaceKind) : decode (encode k) = some k := by
  cases k <;> rfl

/-- Reading undoes writing for abilities, entries, sheets, races, ranges and configurations. -/
theorem reading_undoes_writing :
    Faithful Ability .scalar ∧ Faithful AbilityScore .entry ∧ Faithful Sheet .sheet ∧
    Faithful RaceKind .scalar ∧ Faithful ScoreRange .range ∧ Faithful Config .config where
  left := faithful_of_respects decode_encode_ability (respects_scalar _)
  right := ⟨faithful_of_respects (fun x => (reads_entry _ _).mpr (isEntry_encode x)) respects_entry,
    faithful_of_respects (fun s => (reads_sheet _ _).mpr (isSheet_encode s)) respects_sheet,
    faithful_of_respects decode_encode_race (respects_scalar _),
    faithful_of_respects (fun r => (reads_range _ _).mpr (isRange_encode r)) respects_range,
    faithful_of_respects (fun c => (reads_config _ _).mpr (isConfig_encode c)) respects_config⟩

/-- A configuration with its members in another order, an unknown one among them, its range as an
array, and spaces around all tokens. -/
theorem rephrased_config_is_read :
    let range : Value := .array [.number (.ofNat 9), .number (.ofNat 4)]
    let v : Value := .object [(some "proficiency_bonus", .number (.ofNat 2)), (some "note", .null),
      (some "score_roll", range)]
    let text :=
      " \x7b \"proficiency_bonus\" : 2 , \"note\" : null , \"score_roll\" : [ 9 , 4 ] \x7d"
    Paraphrase .config (encode (Config.mk ⟨9, 4⟩ 2)) v ∧ v.LaidOut text ∧
      read? text = some (Config.mk ⟨9, 4⟩ 2) := by
  intro range v text
  have hparaphrase : Paraphrase .config (encode (Config.mk ⟨9, 4⟩ 2)) v := by
    have hlist : Rephrases .range (encode (ScoreRange.mk 9 4)) range := @Rephrases.list _ [_, _] rfl
    have hmember := @Rephrases.member _ [] [(some "proficiency_bonus", .number (.ofNat 2))] _ _ _ _
      (List.mem_cons_self : ("score_roll", Schema.range) ∈ [_, ("proficiency_bonus", .scalar)])
      hlist
    have hinsert := @Rephrases.insert [("score_roll", .range), ("proficiency_bonus", .scalar)]
      [(some "proficiency_bonus", .number (.ofNat 2))] [(some "score_roll", range)] "note" .null
      (by decide)
    exact ((Relation.ReflTransGen.single hmember).tail (.reorder (.swap _ _ []))).tail hinsert
  have hlaid : v.LaidOut text := by
    have htext : v.toTokens.flatMap (fun t => [' '] ++ t.write) = text.toList := by decide +kernel
    have h := @Token.spellsAll_write [' '] (by simp [isSpace]) v.toTokens
    rwa [htext] at h
  exact ⟨hparaphrase, hlaid, reading_undoes_writing.2.2.2.2.2.read _ _ _ hparaphrase hlaid⟩

end CharacterSheet.Json
