import CharacterSheet.Config.File
import CharacterSheet.Proofs.Text.Utf8

/-!
Configurations in files. The bytes of a file alone settle whether it can be read. One that can gives
what its text gives, and an error of the text is reported as it is, in a context that no failure to
read is put in.
-/
namespace CharacterSheet.Config

open Utf8 (WellFormed)

variable {bytes : ByteArray} {file : File} {detail : String}

lemma File.text_content_toUTF8 (text : String) : (content text.toUTF8).text = .ok text := by
  rw [File.text, Utf8.fromUTF8?_eq_some_iff.mpr rfl]

lemma File.text_content_of_not_wellFormed (h : ¬ WellFormed bytes.data.toList) :
    (content bytes).text = .error .notText := by
  rw [File.text, Utf8.fromUTF8?_eq_none_iff.mpr h]

/-- A file that can be read gives what its text gives. -/
lemma load_of_text {text : String} (h : file.text = .ok text) :
    load file detail = (parse text detail).mapError .text := by
  rw [load, h]
  dsimp only
  cases parse text detail <;> rfl

lemma load_of_unread {e : ReadError} (h : file.text = .error e) :
    load file detail = .error (.read e) := by
  rw [load, h]

lemma load_content_toUTF8 (text detail : String) :
    load (.content text.toUTF8) detail = (parse text detail).mapError .text :=
  load_of_text (File.text_content_toUTF8 text)

section MapError

variable {ε δ α : Type} {result : Except ε α} {f : ε → δ}

lemma mapError_eq_ok_iff {a : α} : result.mapError f = .ok a ↔ result = .ok a := by
  cases result <;> simp [Except.mapError]

lemma mapError_eq_error_iff {d : δ} :
    result.mapError f = .error d ↔ ∃ e, result = .error e ∧ f e = d := by
  cases result <;> simp [Except.mapError]

end MapError

/-- Only bytes that encode no text fail to be read. -/
lemma load_content_eq_read_iff {e : ReadError} :
    load (.content bytes) detail = .error (.read e) ↔
      e = .notText ∧ ¬ WellFormed bytes.data.toList := by
  by_cases h : WellFormed bytes.data.toList
  · obtain ⟨text, rfl⟩ := h.exists_text
    rw [load_content_toUTF8, mapError_eq_error_iff]
    constructor
    · rintro ⟨_, -, ⟨⟩⟩
    · rintro ⟨-, hnot⟩
      exact absurd h hnot
  · rw [load_of_unread (File.text_content_of_not_wellFormed h)]
    constructor
    · rintro ⟨⟩
      exact ⟨rfl, h⟩
    · rintro ⟨rfl, -⟩
      rfl

/-- A failure to read does not start like the context of an error of the text. -/
lemma outer_read_ne (path other : String) (e : ReadError) :
    LoadError.outer path (.read e) ≠ "Invalid character config in " ++ other := by
  have hread : "Failed to read file ".toList.head? = some 'F' := by decide
  have hcontext : "Invalid character config in ".toList.head? = some 'I' := by decide
  intro h
  change "Failed to read file " ++ path ++ ": " ++ e.reason = _ at h
  have hfirst := congrArg (fun s : String => s.toList.head?) h
  simp only [String.toList_append, List.head?_append] at hfirst
  rw [hread, hcontext] at hfirst
  simp at hfirst

/-- Loading a file agrees with parsing its text, for all contents of the file and all that may be
said of a malformed text. A file fails to be read just when its bytes encode no text, or when it has
none; otherwise it gives what the text gives, with the same error as cause, in a context of its own.
-/
theorem load_agrees_with_parse (detail : String) :
    (∀ bytes e, load (.content bytes) detail = .error (.read e) ↔
      e = .notText ∧ ¬ WellFormed bytes.data.toList) ∧
    load .missing detail = .error (.read .missing) ∧
    load .directory detail = .error (.read .directory) ∧
    (∀ bytes : ByteArray, WellFormed bytes.data.toList → ∃ text : String, text.toUTF8 = bytes ∧
      (∀ config, load (.content bytes) detail = .ok config ↔ parse text detail = .ok config) ∧
      ∀ e, load (.content bytes) detail = .error (.text e) ↔ parse text detail = .error e) ∧
    (∀ text : String,
      load (.content text.toUTF8) detail = (parse text detail).mapError LoadError.text) ∧
    (∀ path e, (LoadError.text e).code = e.code ∧ (LoadError.text e).message path = e.message ∧
      LoadError.outer path (.text e) = "Invalid character config in " ++ path) ∧
    ∀ path other e, LoadError.outer path (.read e) ≠ "Invalid character config in " ++ other := by
  refine ⟨fun bytes e => load_content_eq_read_iff, rfl, rfl, fun bytes h => ?_,
    fun text => load_content_toUTF8 text detail, fun path e => ⟨rfl, rfl, rfl⟩, outer_read_ne⟩
  obtain ⟨text, rfl⟩ := h.exists_text
  refine ⟨text, rfl, fun config => ?_, fun e => ?_⟩
  · rw [load_content_toUTF8, mapError_eq_ok_iff]
  · rw [load_content_toUTF8, mapError_eq_error_iff]
    simp

end CharacterSheet.Config
