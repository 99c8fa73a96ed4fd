import CharacterSheet.Proofs.Text.Digits
import CharacterSheet.Toml.Statement
import Mathlib.Data.Int.Notation

/-!
Decimal integers in TOML texts. An integer is spelled with or without a sign, and with single
underscores between its digits; each spelling is read as that integer where nothing after it could
belong to it, and is not taken for a date or a time.
-/
namespace CharacterSheet.Toml

open Digit (IsWhole ofDecimals)
open Quoted (isBlank)

/-- A text of spaces and tabs only. -/
def Blanks (cs : List Char) : Prop := ∀ c ∈ cs, isBlank c

namespace Number

/-- The digits after the first one, each possibly after an underscore. -/
inductive SpellsMore : List Char → List (Fin 10) → Prop where
  | nil : SpellsMore [] []
  | digit {cs : List Char} {digits : List (Fin 10)} (d : Fin 10) (h : SpellsMore cs digits) :
    SpellsMore (Digit.char d :: cs) (d :: digits)
  | separated {cs : List Char} {digits : List (Fin 10)} (d : Fin 10) (h : SpellsMore cs digits) :
    SpellsMore ('_' :: Digit.char d :: cs) (d :: digits)

/-- A whole number without a needless zero in front. -/
inductive SpellsWhole : List Char → ℕ → Prop where
  | digits {cs : List Char} {d : Fin 10} {digits : List (Fin 10)} (hwhole : IsWhole (d :: digits))
    (h : SpellsMore cs digits) : SpellsWhole (Digit.char d :: cs) (ofDecimals (d :: digits))

/-- An integer with or without a sign. -/
inductive Spells : List Char → ℤ → Prop where
  | plain {word : List Char} {n : ℕ} (h : SpellsWhole word n) : Spells word n
  | plus {word : List Char} {n : ℕ} (h : SpellsWhole word n) : Spells ('+' :: word) n
  | minus {word : List Char} {n : ℕ} (h : SpellsWhole word n) : Spells ('-' :: word) (-n)

/-- The characters right after a number: blanks, and what ends a line or a value. -/
def closers : List Char := [' ', '\t', '\r', '\n', '#', ',', ']', '\x7d']

/-- What follows cannot belong to a number: after any blanks, the end of a line or a value. -/
def Closes (cs : List Char) : Prop := ∀ c ∈ (skipBlanks cs).head?, c ∈ closers

variable {cs rest : List Char}

lemma Closes.of_cons_blank {c : Char} (hc : isBlank c) (h : Closes (c :: cs)) : Closes cs := by
  rwa [Closes, skipBlanks, List.dropWhile_cons_of_pos hc] at h

lemma Closes.mem_closers (h : Closes cs) {c : Char} (hc : c ∈ cs.head?) : c ∈ closers := by
  cases cs with
  | nil => cases hc
  | cons d cs =>
    cases hc
    by_cases hblank : isBlank c
    · simp only [isBlank, Bool.or_eq_true, beq_iff_eq] at hblank
      rcases hblank with rfl | rfl <;> decide
    · apply h
      rw [skipBlanks, List.dropWhile_cons_of_neg hblank]
      rfl

/-- No piece of a numeral follows. -/
lemma Closes.numeral_eq_nil (h : Closes cs) (afterTab : Bool) : numeral afterTab cs = [] := by
  induction cs generalizing afterTab with
  | nil => rfl
  | cons c cs ih =>
    have hc : c ∈ closers := h.mem_closers rfl
    rw [numeral]
    split_ifs with htab hpiece
    · rw [ih (h.of_cons_blank (htab ▸ rfl))]
    · rfl
    · exfalso
      simp only [closers, List.mem_cons, List.not_mem_nil, or_false] at hc
      rcases hc with rfl | rfl | rfl | rfl | rfl | rfl | rfl | rfl <;> simp [isDelimiter] at hpiece

/-- No digits, no places after a point and no power of ten follow. -/
lemma Closes.stops (h : Closes rest) :
    moreDigits decimal? rest = ([], rest) ∧ fraction rest = ([], rest) ∧ power? rest = none := by
  cases rest with
  | nil => exact ⟨rfl, rfl, rfl⟩
  | cons c rest =>
    have hc : c ∈ closers := h.mem_closers rfl
    simp only [closers, List.mem_cons, List.not_mem_nil, or_false] at hc
    rcases hc with rfl | rfl | rfl | rfl | rfl | rfl | rfl | rfl <;> exact ⟨rfl, rfl, rfl⟩

lemma decimal?_char (d : Fin 10) : decimal? (Digit.char d) = some d.val := by
  rw [decimal?, Digit.decimal?_char]
  rfl

lemma char_ne (d : Fin 10) {c : Char} (hc : Digit.decimal? c = none) : Digit.char d ≠ c := by
  rintro rfl
  rw [Digit.decimal?_char] at hc
  cases hc

lemma moreDigits_append {digits : List (Fin 10)} (h : SpellsMore cs digits) (hrest : Closes rest) :
    moreDigits decimal? (cs ++ rest) = (digits.map Fin.val, rest) := by
  induction h with
  | nil => exact hrest.stops.1
  | digit d _ ih =>
    simp [moreDigits, char_ne d (c := '_') rfl, decimal?_char, ih]
  | separated d _ ih =>
    simp [moreDigits, decimal?_char, ih]

lemma digits_append {d : Fin 10} {more : List (Fin 10)} (h : SpellsMore cs more)
    (hrest : Closes rest) :
    digits decimal? (Digit.char d :: (cs ++ rest)) = some (d.val :: more.map Fin.val, rest) := by
  rw [digits, decimal?_char, moreDigits_append h hrest]
  rfl

/-- An integer is a whole number after its sign. -/
lemma Spells.exists_whole {word : List Char} {n : ℤ} (h : Spells word n) :
    ∃ negative whole m, SpellsWhole whole m ∧ n = signed negative m ∧
      ∀ rest, sign (word ++ rest) = (negative, whole ++ rest) := by
  cases h with
  | plain h =>
    refine ⟨false, word, _, h, rfl, fun rest => ?_⟩
    obtain @⟨_, d, _, -, -⟩ := h
    simp [sign, char_ne d (c := '-') rfl, char_ne d (c := '+') rfl]
  | plus h => exact ⟨false, _, _, h, rfl, fun _ => rfl⟩
  | minus h => exact ⟨true, _, _, h, rfl, fun _ => rfl⟩

lemma scanDecimal_append {word : List Char} {n : ℤ} (h : Spells word n) (hrest : Closes rest) :
    scanDecimal (word ++ rest) = some (.integer n, rest) := by
  obtain ⟨negative, _, _, @⟨_, d, digits, hwhole, hmore⟩, rfl, hsign⟩ := h.exists_whole
  have hlead : ¬ ((d.val :: digits.map Fin.val).head? = some 0 ∧
      (d.val :: digits.map Fin.val).length ≠ 1) := by
    rintro ⟨hzero, hlength⟩
    have hd : d = 0 := Fin.ext (Option.some.inj hzero)
    rw [hwhole.eq_nil_of_zero digits (by rw [hd])] at hlength
    exact hlength rfl
  obtain ⟨-, hfraction, hpower⟩ := hrest.stops
  rw [scanDecimal, hsign]
  dsimp only
  rw [List.cons_append, digits_append hmore hrest]
  change (if _ then _ else _) = _
  rw [if_neg hlead, hfraction]
  dsimp only
  rw [hpower, List.append_nil]
  rfl

lemma scanSpecial_append {word : List Char} {n : ℤ} (h : Spells word n) (rest : List Char) :
    scanSpecial (word ++ rest) = none := by
  obtain ⟨negative, _, _, @⟨_, d, _, -, -⟩, -, hsign⟩ := h.exists_whole
  simp [scanSpecial, hsign, char_ne d (c := 'i') rfl, char_ne d (c := 'n') rfl]

/-- Only a single zero starts with a zero, so no mark of a base can follow. -/
lemma Spells.mem_closers_of_zero {word : List Char} {n : ℤ} (h : Spells word n)
    (hrest : Closes rest) {c : Char} {tail : List Char} (hzero : word ++ rest = '0' :: c :: tail) :
    c ∈ closers := by
  cases h with
  | plus => cases hzero
  | minus => cases hzero
  | plain h =>
    obtain @⟨more, d, digits, hwhole, hmore⟩ := h
    obtain ⟨hd, htail⟩ := List.cons.inj hzero
    have hd : some d = some 0 := by rw [← Digit.decimal?_char, hd]; rfl
    cases hwhole.eq_nil_of_zero digits (by rw [Option.some.inj hd])
    cases hmore
    have hrest' : rest = c :: tail := htail
    exact hrest.mem_closers (by rw [hrest']; rfl)

lemma scanNumber_append {word : List Char} {n : ℤ} (h : Spells word n) (hrest : Closes rest) :
    scanNumber (word ++ rest) = some (.integer n, rest) := by
  rw [scanNumber.eq_def]
  split
  · next heq => exact absurd (h.mem_closers_of_zero hrest heq) (by decide)
  · next heq => exact absurd (h.mem_closers_of_zero hrest heq) (by decide)
  · next heq => exact absurd (h.mem_closers_of_zero hrest heq) (by decide)
  · rw [scanSpecial_append h, Option.none_or, scanDecimal_append h hrest]

lemma scan_append {word : List Char} {n : ℤ} (h : Spells word n) (hrest : Closes rest) :
    scan (word ++ rest) = some (.integer n, rest) := by
  have hend : (numeral false rest).isEmpty := by rw [hrest.numeral_eq_nil]; rfl
  rw [scan, scanNumber_append h hrest, Option.filter_some, if_pos hend, Option.some_or]

/-- The first character of an integer. -/
lemma Spells.exists_cons {word : List Char} {n : ℤ} (h : Spells word n) :
    ∃ c cs, word = c :: cs ∧
      c ∈ ['+', '-', '0', '1', '2', '3', '4', '5', '6', '7', '8', '9'] := by
  have hdigit : ∀ d : Fin 10, Digit.char d ∈
      ['+', '-', '0', '1', '2', '3', '4', '5', '6', '7', '8', '9'] := by decide
  cases h with
  | plain h =>
    obtain ⟨-, -⟩ := h
    exact ⟨_, _, rfl, hdigit _⟩
  | plus h => exact ⟨_, _, rfl, by decide⟩
  | minus h => exact ⟨_, _, rfl, by decide⟩

end Number

/-! ### No dates or times -/

namespace Moment

/-- What follows the decimal digits at the start of a text. -/
def afterDigits (cs : List Char) : List Char := cs.dropWhile fun c => (Digit.decimal? c).isSome

variable {cs rest : List Char} {n : ℕ}

lemma afterDigits_of_twoDigits (h : twoDigits cs = some (n, rest)) :
    afterDigits rest = afterDigits cs := by
  rw [twoDigits.eq_def] at h
  split at h
  · next a b cs =>
    obtain ⟨d, hd, h⟩ := Option.bind_eq_some_iff.mp h
    obtain ⟨e, he, h⟩ := Option.bind_eq_some_iff.mp h
    cases h
    simp [afterDigits, hd, he]
  · cases h

lemma head?_of_twoDigitsAfter {separator : Char}
    (h : twoDigitsAfter separator cs = some (n, rest)) :
    cs.head? = some separator := by
  cases cs with
  | nil => cases h
  | cons c cs =>
    rw [twoDigitsAfter] at h
    split at h
    · next hc => rw [hc]; rfl
    · cases h

lemma head?_afterDigits {separator : Char} (hseparator : Digit.decimal? separator = none)
    (h : cs.head? = some separator) : (afterDigits cs).head? = some separator := by
  cases cs with
  | nil => cases h
  | cons c cs =>
    cases h
    rw [afterDigits, List.dropWhile_cons_of_neg (by simp [hseparator])]
    rfl

/-- A date goes on with a hyphen after its first digits, and a time with a colon. -/
lemma scan_eq_none (hdate : (afterDigits cs).head? ≠ some '-')
    (htime : (afterDigits cs).head? ≠ some ':') : scan cs = none := by
  have hscanTime : scanTime cs = none := by
    rw [Option.eq_none_iff_forall_ne_some]
    rintro result h
    obtain ⟨⟨hour, afterHour⟩, hhour, h⟩ := Option.bind_eq_some_iff.mp h
    obtain ⟨⟨minute, afterMinute⟩, hminute, -⟩ := Option.bind_eq_some_iff.mp h
    apply htime
    rw [← afterDigits_of_twoDigits hhour]
    exact head?_afterDigits rfl (head?_of_twoDigitsAfter hminute)
  have hscanDate : scanDate cs = none := by
    rw [Option.eq_none_iff_forall_ne_some]
    rintro result h
    obtain ⟨⟨century, afterCentury⟩, hcentury, h⟩ := Option.bind_eq_some_iff.mp h
    obtain ⟨⟨year, afterYear⟩, hyear, h⟩ := Option.bind_eq_some_iff.mp h
    obtain ⟨⟨month, afterMonth⟩, hmonth, -⟩ := Option.bind_eq_some_iff.mp h
    apply hdate
    rw [← afterDigits_of_twoDigits hcentury, ← afterDigits_of_twoDigits hyear]
    exact head?_afterDigits rfl (head?_of_twoDigitsAfter hmonth)
  rw [scan, hscanDate, hscanTime]
  rfl

lemma scan_of_not_digit {c : Char} (hc : Digit.decimal? c = none) : scan (c :: cs) = none := by
  have hdigits : twoDigits (c :: cs) = none := by cases cs <;> simp [twoDigits, hc]
  rw [scan, scanDate, scanTime, hdigits]
  rfl

end Moment

namespace Number

variable {cs rest : List Char}

/-- After the first digits of an integer comes an underscore, or what comes after the integer. -/
lemma SpellsMore.mem_head?_afterDigits {digits : List (Fin 10)} (h : SpellsMore cs digits)
    (hrest : Closes rest) : ∀ c ∈ (Moment.afterDigits (cs ++ rest)).head?, c ∈ '_' :: closers := by
  induction h with
  | nil =>
    cases rest with
    | nil => nofun
    | cons c rest =>
      have hc : c ∈ closers := hrest.mem_closers rfl
      have hdigit : ∀ c ∈ closers, Digit.decimal? c = none := by simp [closers, Digit.decimal?]
      have hhead : (Moment.afterDigits (c :: rest)).head? = some c :=
        Moment.head?_afterDigits (hdigit c hc) rfl
      rw [List.nil_append, hhead]
      rintro _ ⟨⟩
      exact List.mem_cons_of_mem _ hc
  | digit d _ ih =>
    simpa [Moment.afterDigits] using ih
  | separated d _ _ =>
    rintro _ ⟨⟩
    exact List.mem_cons_self

lemma moment_scan_append {word : List Char} {n : ℤ} (h : Spells word n) (hrest : Closes rest) :
    Moment.scan (word ++ rest) = none := by
  cases h with
  | plus => exact Moment.scan_of_not_digit rfl
  | minus => exact Moment.scan_of_not_digit rfl
  | plain h =>
    obtain @⟨more, d, digits, -, hmore⟩ := h
    have hafter : Moment.afterDigits (Digit.char d :: more ++ rest) =
        Moment.afterDigits (more ++ rest) := by simp [Moment.afterDigits]
    have hmem := hmore.mem_head?_afterDigits hrest
    rw [← hafter] at hmem
    exact Moment.scan_eq_none (fun hhead => absurd (hmem _ hhead) (by decide))
      fun hhead => absurd (hmem _ hhead) (by decide)

/-- An integer is read as a value. -/
lemma scanScalar_append {word : List Char} {n : ℤ} (h : Spells word n) (hrest : Closes rest) :
    scanScalar (word ++ rest) = some (.integer n, rest) := by
  have hmoment := moment_scan_append h hrest
  have hnumber := scan_append h hrest
  obtain ⟨c, cs, rfl, hc⟩ := h.exists_cons
  obtain ⟨give, hscalar⟩ : ∃ give, scanScalar (c :: cs ++ rest) =
      ((Moment.scan (c :: cs ++ rest)).map give).or (scan (c :: cs ++ rest)) := by
    simp only [List.mem_cons, List.not_mem_nil, or_false] at hc
    rcases hc with rfl | rfl | rfl | rfl | rfl | rfl | rfl | rfl | rfl | rfl | rfl | rfl <;>
      exact ⟨_, rfl⟩
  rw [hscalar, hmoment, hnumber]
  rfl

end Number
end CharacterSheet.Toml
