import Mathlib.Data.List.Basic
import Mathlib.Tactic.SplitIfs

/-!
The byte sequences that encode texts in UTF-8, by the values of their bytes. Every character has one
sequence of one to four bytes: longer forms, halves of surrogate pairs and numbers past the last
code point are left out. Exactly these sequences are decoded.
-/
namespace CharacterSheet.Utf8

/-- A byte after the first one of a character. -/
def Trails (b : UInt8) : Prop := 0x80 ≤ b ∧ b ≤ 0xBF

/-- The bytes of one character. -/
inductive IsCharacter : List UInt8 → Prop where
  | one {a : UInt8} (ha : a ≤ 0x7F) : IsCharacter [a]
  | two {a b : UInt8} (ha : 0xC2 ≤ a ∧ a ≤ 0xDF) (hb : Trails b) : IsCharacter [a, b]
  | three {a b c : UInt8} (ha : 0xE0 ≤ a ∧ a ≤ 0xEF) (hb : Trails b) (hc : Trails c)
    (hlong : a = 0xE0 → 0xA0 ≤ b) (hsurrogate : a = 0xED → b ≤ 0x9F) : IsCharacter [a, b, c]
  | four {a b c d : UInt8} (ha : 0xF0 ≤ a ∧ a ≤ 0xF4) (hb : Trails b) (hc : Trails c)
    (hd : Trails d) (hlong : a = 0xF0 → 0x90 ≤ b) (hlarge : a = 0xF4 → b ≤ 0x8F) :
    IsCharacter [a, b, c, d]

/-- The bytes of characters, one after the other. -/
inductive WellFormed : List UInt8 → Prop where
  | nil : WellFormed []
  | cons {bytes rest : List UInt8} (h : IsCharacter bytes) (hrest : WellFormed rest) :
    WellFormed (bytes ++ rest)

lemma ofNat_eq {n : ℕ} {b : UInt8} (h : n = b.toNat) : UInt8.ofNat n = b := by
  rw [h, UInt8.ofNat_toNat]

lemma between_iff {lo b hi : UInt8} :
    lo ≤ b ∧ b ≤ hi ↔ lo.toNat ≤ b.toNat ∧ b.toNat ≤ hi.toNat := by
  rw [UInt8.le_iff_toNat_le, UInt8.le_iff_toNat_le]

lemma trails_iff {b : UInt8} : Trails b ↔ 128 ≤ b.toNat ∧ b.toNat ≤ 191 := between_iff

/-- The bytes of a character are what some code point is encoded as. -/
lemma IsCharacter.exists_char {bytes : List UInt8} (h : IsCharacter bytes) :
    ∃ c, String.utf8EncodeChar c = bytes := by
  have hvalue : ∀ n, n.isValidChar → ∃ c : Char, c.val.toNat = n := fun n hn =>
    ⟨Char.ofNatAux n hn, rfl⟩
  cases h with
  | @one a ha =>
    have ha : a.toNat ≤ 127 := UInt8.le_iff_toNat_le.mp ha
    obtain ⟨c, hc⟩ := hvalue a.toNat (.inl (by omega))
    refine ⟨c, ?_⟩
    rw [String.utf8EncodeChar, hc, if_pos ha, UInt8.ofNat_toNat]
  | @two a b ha hb =>
    have ha : 194 ≤ a.toNat ∧ a.toNat ≤ 223 := between_iff.mp ha
    rw [trails_iff] at hb
    obtain ⟨c, hc⟩ := hvalue ((a.toNat - 192) * 64 + (b.toNat - 128)) (.inl (by omega))
    refine ⟨c, ?_⟩
    rw [String.utf8EncodeChar, hc, if_neg (by omega), if_pos (by omega), ofNat_eq (b := a),
      ofNat_eq (b := b)] <;> omega
  | @three a b c ha hb hc hlong hsurrogate =>
    have ha : 224 ≤ a.toNat ∧ a.toNat ≤ 239 := between_iff.mp ha
    have hlong : a.toNat = 224 → 160 ≤ b.toNat := fun h =>
      UInt8.le_iff_toNat_le.mp (hlong (UInt8.toNat_inj.mp h))
    have hsurrogate : a.toNat = 237 → b.toNat ≤ 159 := fun h =>
      UInt8.le_iff_toNat_le.mp (hsurrogate (UInt8.toNat_inj.mp h))
    rw [trails_iff] at hb hc
    obtain ⟨c', hc'⟩ := hvalue
      ((a.toNat - 224) * 4096 + (b.toNat - 128) * 64 + (c.toNat - 128)) (by
        rw [Nat.isValidChar]
        omega)
    refine ⟨c', ?_⟩
    rw [String.utf8EncodeChar, hc', if_neg (by omega), if_neg (by omega), if_pos (by omega),
      ofNat_eq (b := a), ofNat_eq (b := b), ofNat_eq (b := c)] <;> omega
  | @four a b c d ha hb hc hd hlong hlarge =>
    have ha : 240 ≤ a.toNat ∧ a.toNat ≤ 244 := between_iff.mp ha
    have hlong : a.toNat = 240 → 144 ≤ b.toNat := fun h =>
      UInt8.le_iff_toNat_le.mp (hlong (UInt8.toNat_inj.mp h))
    have hlarge : a.toNat = 244 → b.toNat ≤ 143 := fun h =>
      UInt8.le_iff_toNat_le.mp (hlarge (UInt8.toNat_inj.mp h))
    rw [trails_iff] at hb hc hd
    obtain ⟨c', hc'⟩ := hvalue ((a.toNat - 240) * 262144 + (b.toNat - 128) * 4096 +
      (c.toNat - 128) * 64 + (d.toNat - 128)) (.inr (by omega))
    refine ⟨c', ?_⟩
    rw [String.utf8EncodeChar, hc', if_neg (by omega), if_neg (by omega), if_neg (by omega),
      ofNat_eq (b := a), ofNat_eq (b := b), ofNat_eq (b := c), ofNat_eq (b := d)] <;> omega

/-- Every code point is encoded as the bytes of a character. -/
lemma isCharacter_utf8EncodeChar (c : Char) : IsCharacter (String.utf8EncodeChar c) := by
  have hvalid : c.val.toNat.isValidChar := c.valid
  have hbyte : ∀ {n}, n < 256 → (UInt8.ofNat n).toNat = n := fun h => UInt8.toNat_ofNat_of_lt' h
  have hfirst : ∀ {n byte}, n < 256 → UInt8.ofNat n = byte → n = byte.toNat := fun hn h => by
    rw [← h, hbyte hn]
  have htrails : ∀ n, Trails (UInt8.ofNat (n % 64 + 128)) := fun n => by
    rw [trails_iff, hbyte (by omega)]
    omega
  rw [String.utf8EncodeChar]
  generalize c.val.toNat = n at *
  rw [Nat.isValidChar] at hvalid
  split_ifs with hone htwo hthree
  · refine .one (UInt8.le_iff_toNat_le.mpr ?_)
    rw [hbyte (by omega)]
    exact hone
  · refine .two (between_iff.mpr ?_) (htrails _)
    rw [hbyte (by omega)]
    change 194 ≤ _ ∧ _ ≤ 223
    omega
  · refine .three (between_iff.mpr ?_) (htrails _) (htrails _) (fun h => ?_) (fun h => ?_)
    · rw [hbyte (by omega)]
      change 224 ≤ _ ∧ _ ≤ 239
      omega
    · have hlead : n / 4096 % 16 + 224 = 224 := hfirst (by omega) h
      rw [UInt8.le_iff_toNat_le, hbyte (by omega)]
      change 160 ≤ _
      omega
    · have hlead : n / 4096 % 16 + 224 = 237 := hfirst (by omega) h
      rw [UInt8.le_iff_toNat_le, hbyte (by omega)]
      change _ ≤ 159
      omega
  · refine .four (between_iff.mpr ?_) (htrails _) (htrails _) (htrails _) (fun h => ?_)
      (fun h => ?_)
    · rw [hbyte (by omega)]
      change 240 ≤ _ ∧ _ ≤ 244
      omega
    · have hlead : n / 262144 % 8 + 240 = 240 := hfirst (by omega) h
      rw [UInt8.le_iff_toNat_le, hbyte (by omega)]
      change 144 ≤ _
      omega
    · have hlead : n / 262144 % 8 + 240 = 244 := hfirst (by omega) h
      rw [UInt8.le_iff_toNat_le, hbyte (by omega)]
      change _ ≤ 143
      omega

lemma wellFormed_flatMap (cs : List Char) : WellFormed (cs.flatMap String.utf8EncodeChar) := by
  induction cs with
  | nil => exact .nil
  | cons c cs ih =>
    rw [List.flatMap_cons]
    exact .cons (isCharacter_utf8EncodeChar c) ih

lemma WellFormed.exists_chars {bytes : List UInt8} (h : WellFormed bytes) :
    ∃ cs : List Char, cs.flatMap String.utf8EncodeChar = bytes := by
  induction h with
  | nil => exact ⟨[], rfl⟩
  | cons h _ ih =>
    obtain ⟨c, rfl⟩ := h.exists_char
    obtain ⟨cs, rfl⟩ := ih
    exact ⟨c :: cs, List.flatMap_cons⟩

/-- The byte sequences that can be decoded are those of characters, one after the other. -/
theorem isValidUTF8_iff {bytes : ByteArray} : bytes.IsValidUTF8 ↔ WellFormed bytes.data.toList := by
  constructor
  · rintro ⟨cs, rfl⟩
    rw [List.utf8Encode, List.data_toByteArray]
    exact wellFormed_flatMap cs
  · intro h
    obtain ⟨cs, hcs⟩ := h.exists_chars
    refine ⟨cs, ByteArray.ext ?_⟩
    rw [List.utf8Encode, hcs, List.data_toByteArray]

lemma WellFormed.exists_text {bytes : ByteArray} (h : WellFormed bytes.data.toList) :
    ∃ text : String, text.toUTF8 = bytes :=
  ⟨String.fromUTF8 bytes (isValidUTF8_iff.mpr h), rfl⟩

lemma fromUTF8?_eq_some_iff {bytes : ByteArray} {text : String} :
    String.fromUTF8? bytes = some text ↔ text.toUTF8 = bytes := by
  constructor
  · intro h
    rw [String.fromUTF8?] at h
    split_ifs at h with hvalid
    cases h
    rfl
  · rintro rfl
    exact dif_pos text.isValidUTF8

lemma fromUTF8?_eq_none_iff {bytes : ByteArray} :
    String.fromUTF8? bytes = none ↔ ¬ WellFormed bytes.data.toList := by
  rw [← isValidUTF8_iff, String.fromUTF8?]
  split_ifs with h
  · exact ⟨nofun, fun hnot => absurd h hnot⟩
  · exact ⟨fun _ => h, fun _ => rfl⟩

end CharacterSheet.Utf8
