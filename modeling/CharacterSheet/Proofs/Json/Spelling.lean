import CharacterSheet.Json.Token
import CharacterSheet.Proofs.Text.Digits
import Mathlib.Data.List.Forall2

/-!
All the ways to spell a JSON token: numbers with or without a point and a power of ten, literals
with any escapes. The reader of tokens takes each spelling for its token, and every token is written
in one of its spellings.
-/
namespace CharacterSheet.Json

namespace Number

open Digit

inductive SpellsFraction : List Char → List (Fin 10) → Prop where
  | none : SpellsFraction [] []
  | point {digits : List (Fin 10)} (h : digits ≠ []) :
    SpellsFraction ('.' :: digits.map char) digits

inductive SpellsSign : List Char → Bool → Prop where
  | none : SpellsSign [] false
  | plus : SpellsSign ['+'] false
  | minus : SpellsSign ['-'] true

inductive SpellsExponent : List Char → Option Int → Prop where
  | none : SpellsExponent [] none
  | power {e : Char} {sign : List Char} {negative : Bool} {digits : List (Fin 10)}
    (he : e = 'e' ∨ e = 'E') (hsign : SpellsSign sign negative) (h : digits ≠ []) :
    SpellsExponent (e :: (sign ++ digits.map char))
      (some (if negative then -(ofDecimals digits : Int) else ofDecimals digits))

/-- A sign in front of a negative number, the whole part without needless zeros, and perhaps digits
after a point and a power of ten. -/
inductive Spells : List Char → Number → Prop where
  | parts {negative : Bool} {whole fraction : List (Fin 10)} {point power : List Char}
    {exponent : Option Int} (hwhole : IsWhole whole) (hfraction : SpellsFraction point fraction)
    (hexponent : SpellsExponent power exponent) :
    Spells ((if negative then ['-'] else []) ++ (whole.map char ++ (point ++ power)))
      ⟨negative, ofDecimals whole, fraction, exponent⟩

/-- A text that cannot go on with a number read so far. -/
def Closes (cs : List Char) : Prop :=
  ∀ c ∈ cs.head?, decimal? c = none ∧ c ≠ '.' ∧ c ≠ 'e' ∧ c ≠ 'E'

variable {rest : List Char}

lemma char_ne_sign (d : Fin 10) : char d ≠ '-' ∧ char d ≠ '+' := by decide +revert

lemma scanSign_append {sign : List Char} {negative : Bool} (h : SpellsSign sign negative)
    {digits : List (Fin 10)} (hdigits : digits ≠ []) :
    scanSign (sign ++ (digits.map char ++ rest)) = (negative, digits.map char ++ rest) := by
  cases h with
  | plus | minus => rfl
  | none =>
    cases digits with
    | nil => contradiction
    | cons d digits =>
      obtain ⟨hminus, hplus⟩ := char_ne_sign d
      simp [scanSign, hminus, hplus]

lemma scanPower_append {sign : List Char} {negative : Bool} {digits : List (Fin 10)}
    (hsign : SpellsSign sign negative) (hdigits : digits ≠ []) (hrest : Stops rest) :
    scanPower (sign ++ (digits.map char ++ rest)) =
      some (some (if negative then -(ofDecimals digits : Int) else ofDecimals digits), rest) := by
  rw [scanPower, scanSign_append hsign hdigits]
  dsimp only
  rw [takeDecimals_append digits hrest]
  cases digits with
  | nil => contradiction
  | cons d digits => rfl

lemma scanExponent_append {power : List Char} {exponent : Option Int}
    (h : SpellsExponent power exponent) (hrest : Closes rest) :
    scanExponent (power ++ rest) = some (exponent, rest) := by
  have hstops : Stops rest := fun c hc => (hrest c hc).1
  cases h with
  | power he hsign h =>
    have hpower := scanPower_append hsign h hstops
    rw [List.cons_append, List.append_assoc]
    rcases he with rfl | rfl <;> exact hpower
  | none =>
    cases rest with
    | nil => rfl
    | cons c rest =>
      obtain ⟨-, -, he, hE⟩ := hrest c rfl
      simp [scanExponent, he, hE]

/-- A power of ten does not go on with digits or with a point. -/
lemma stops_power {power : List Char} {exponent : Option Int} (h : SpellsExponent power exponent)
    (hrest : Closes rest) : ∀ c ∈ (power ++ rest).head?, decimal? c = none ∧ c ≠ '.' := by
  cases h with
  | none => exact fun c hc => ⟨(hrest c hc).1, (hrest c hc).2.1⟩
  | power he =>
    rintro c ⟨⟩
    rcases he with rfl | rfl <;> decide

lemma scanFraction_append {point : List Char} {fraction : List (Fin 10)}
    (h : SpellsFraction point fraction)
    (hrest : ∀ c ∈ rest.head?, decimal? c = none ∧ c ≠ '.') :
    scanFraction (point ++ rest) = some (fraction, rest) := by
  have hstops : Stops rest := fun c hc => (hrest c hc).1
  cases h with
  | point h =>
    rw [List.cons_append, scanFraction, takeDecimals_append fraction hstops]
    cases fraction with
    | nil => contradiction
    | cons d digits => rfl
  | none =>
    cases rest with
    | nil => rfl
    | cons c rest =>
      obtain ⟨-, hpoint⟩ := hrest c rfl
      simp [scanFraction, hpoint]

/-- Digits after a point do not go on with digits. -/
lemma stops_fraction {point : List Char} {fraction : List (Fin 10)}
    (h : SpellsFraction point fraction)
    (hrest : ∀ c ∈ rest.head?, decimal? c = none ∧ c ≠ '.') : Stops (point ++ rest) := by
  cases h with
  | none => exact fun c hc => (hrest c hc).1
  | point =>
    rintro c ⟨⟩
    rfl

lemma scanUnsigned_append {negative : Bool} {whole fraction : List (Fin 10)}
    {point power : List Char} {exponent : Option Int} (hwhole : IsWhole whole)
    (hfraction : SpellsFraction point fraction) (hexponent : SpellsExponent power exponent)
    (hrest : Closes rest) :
    scanUnsigned negative (whole.map char ++ (point ++ (power ++ rest))) =
      some (⟨negative, ofDecimals whole, fraction, exponent⟩, rest) := by
  have hpower := stops_power hexponent hrest
  rw [scanUnsigned, takeDecimals_append whole (stops_fraction hfraction hpower)]
  split
  · rename_i h
    exact absurd (congrArg Prod.fst h) hwhole.ne_nil
  · rename_i h
    exact absurd (hwhole.eq_nil_of_zero _ (congrArg Prod.fst h)) (List.cons_ne_nil _ _)
  · rename_i h
    cases h
    rw [scanFraction_append hfraction hpower]
    change (scanExponent (power ++ rest)).bind _ = _
    rw [scanExponent_append hexponent hrest]
    rfl

lemma scan_append {word : List Char} {n : Number} (h : Spells word n) (hrest : Closes rest) :
    scan (word ++ rest) = some (n, rest) := by
  obtain @⟨negative, whole, _, _, _, _, hwhole, hfraction, hexponent⟩ := h
  have hunsigned := @scanUnsigned_append _ negative _ _ _ _ _ hwhole hfraction hexponent hrest
  rw [List.append_assoc, List.append_assoc, List.append_assoc]
  cases negative with
  | true => exact hunsigned
  | false =>
    cases whole with
    | nil => exact absurd rfl hwhole.ne_nil
    | cons d digits =>
      rw [← hunsigned]
      simp [scan, (char_ne_sign d).1]

lemma spellsFraction_write (digits : List (Fin 10)) :
    SpellsFraction (if digits = [] then [] else '.' :: writeDigits digits) digits := by
  split_ifs with h
  · rw [h]
    exact .none
  · exact .point h

lemma spellsExponent_write (e : Int) :
    SpellsExponent ('e' :: ((if e < 0 then ['-'] else []) ++ writeDigits (decimals e.natAbs)))
      (some e) := by
  have hdigits := (isWhole_decimals e.natAbs).ne_nil
  split_ifs with h
  · have hpower := SpellsExponent.power (.inl rfl) .minus hdigits
    rwa [ofDecimals_decimals, if_pos rfl, Int.ofNat_natAbs_of_nonpos (Int.le_of_lt h),
      Int.neg_neg] at hpower
  · have hpower := SpellsExponent.power (.inl rfl) .none hdigits
    rwa [ofDecimals_decimals, if_neg Bool.false_ne_true,
      Int.natAbs_of_nonneg (Int.not_lt.mp h)] at hpower

lemma spells_write (n : Number) : Spells n.write n := by
  obtain ⟨negative, whole, fraction, exponent⟩ := n
  have hwhole := isWhole_decimals whole
  have hfraction := spellsFraction_write fraction
  rw [write, List.append_assoc, List.append_assoc]
  cases exponent with
  | none =>
    have h := @Spells.parts negative _ _ _ _ _ hwhole hfraction .none
    rw [ofDecimals_decimals] at h
    exact h
  | some e =>
    have h := @Spells.parts negative _ _ _ _ _ hwhole hfraction (spellsExponent_write e)
    rw [ofDecimals_decimals] at h
    exact h

end Number

namespace Literal

namespace Piece

/-- A character by itself or by its short escape, or a unit by its numeric escape. -/
inductive Spells : List Char → Piece → Prop where
  | char {c : Char} (hquote : c ≠ '"') (hescape : c ≠ '\\') (h : ¬ c < ' ') : Spells [c] (.char c)
  | escape {e c : Char} (h : escape? e = some c) : Spells ['\\', e] (.char c)
  | unit {a b c d : Char} {u : Nat} (h : unit? a b c d = some u) :
    Spells ['\\', 'u', a, b, c, d] (.unit u)

/-- The part that stands for a character when it is written. -/
def ofChar (c : Char) : Piece := if c < ' ' then .unit c.toNat else .char c

end Piece

/-- Any spellings of the parts between two quotes. -/
inductive Spells : List Char → Literal → Prop where
  | quoted {words : List (List Char)} {pieces : List Piece}
    (h : List.Forall₂ Piece.Spells words pieces) :
    Spells ('"' :: (words.flatten ++ ['"'])) ((assemble? pieces).map String.ofList)

lemma scanPieces_append {word : List Char} {piece : Piece} (h : piece.Spells word)
    (cs : List Char) :
    scanPieces (word ++ cs) =
      (scanPieces cs).bind fun (pieces, rest) => some (piece :: pieces, rest) := by
  cases h with
  | char hquote hescape h => simp [scanPieces, hescape, h]
  | unit h => simp [scanPieces, h]
  | @escape e c h =>
    have he : e ≠ 'u' := by
      rintro rfl
      cases h
    simp [scanPieces, h, he]

lemma scanPieces_flatten {words : List (List Char)} {pieces : List Piece}
    (h : List.Forall₂ Piece.Spells words pieces) (rest : List Char) :
    scanPieces (words.flatten ++ '"' :: rest) = some (pieces, rest) := by
  induction h with
  | nil => rfl
  | cons hword _ ih =>
    rw [List.flatten_cons, List.append_assoc, scanPieces_append hword, ih]
    rfl

lemma unit?_hexChar {n : Nat} (h : n < 0x20) :
    unit? '0' '0' (Digit.hexChar (Digit.lastHex (n / 16))) (Digit.hexChar (Digit.lastHex n)) =
      some n := by
  have hzero : Digit.hex? '0' = some (Digit.lastHex 0) := rfl
  simp only [unit?, hzero, Digit.hex?_hexChar]
  change some (Digit.value 16 [0, 0, n / 16 % 16, n % 16]) = some n
  simp [Digit.value]
  omega

/-- A character below the space is one of the first thirty-two. -/
lemma toNat_lt_of_lt_space {c : Char} (h : c < ' ') : c.toNat < 0x20 := h

lemma spells_writeChar (c : Char) : (Piece.ofChar c).Spells (writeChar c) := by
  rw [writeChar]
  split_ifs with hquote hescape h
  · rw [hquote]
    exact .escape rfl
  · rw [hescape]
    exact .escape rfl
  · rw [Piece.ofChar, if_pos h]
    exact .unit (unit?_hexChar (toNat_lt_of_lt_space h))
  · rw [Piece.ofChar, if_neg h]
    exact .char hquote hescape h

lemma assemble?_unit {u : Nat} (h : u < 0xD800) (pieces : List Piece) :
    assemble? (.unit u :: pieces) = (assemble? pieces).map (Char.ofNat u :: ·) := by
  have hhigh : isHigh u = false := by
    simp only [isHigh, Bool.and_eq_false_iff, decide_eq_false_iff_not]
    omega
  have hlow : isLow u = false := by
    simp only [isLow, Bool.and_eq_false_iff, decide_eq_false_iff_not]
    omega
  cases pieces with
  | nil => simp [assemble?, hhigh, hlow]
  | cons piece pieces => cases piece <;> simp [assemble?, hhigh, hlow]

lemma assemble?_ofChar (cs : List Char) : assemble? (cs.map Piece.ofChar) = some cs := by
  induction cs with
  | nil => rfl
  | cons c cs ih =>
    rw [List.map_cons, Piece.ofChar]
    split_ifs with h
    · have hlt : c.toNat < 0xD800 := Nat.lt_trans (toNat_lt_of_lt_space h) (by decide)
      rw [assemble?_unit hlt, ih, Option.map_some, Char.ofNat_toNat]
    · rw [assemble?, ih, Option.map_some]

lemma spells_write (s : Literal) : Spells s.write s := by
  cases s with
  | none => exact @Spells.quoted [['\\', 'u', 'd', '8', '0', '0']] _ (.cons (.unit rfl) .nil)
  | some s =>
    have hwords :
        List.Forall₂ Piece.Spells (s.toList.map writeChar) (s.toList.map Piece.ofChar) := by
      rw [List.forall₂_map_left_iff, List.forall₂_map_right_iff, List.forall₂_same]
      exact fun c _ => spells_writeChar c
    have h := Spells.quoted hwords
    rw [assemble?_ofChar, Option.map_some, String.ofList_toList] at h
    exact h

lemma scan_append {word : List Char} {s : Literal} (h : Spells word s) (rest : List Char) :
    ∃ cs, word ++ rest = '"' :: cs ∧ scan cs = some (s, rest) := by
  obtain ⟨hwords⟩ := h
  refine ⟨_, rfl, ?_⟩
  change scan (_ ++ ['"'] ++ rest) = _
  rw [List.append_assoc, List.singleton_append, scan, scanPieces_flatten hwords]
  rfl

end Literal

namespace Token

/-- A number or a literal has any of its spellings, every other token has one. -/
inductive Spells : List Char → Token → Prop where
  | number {word : List Char} {n : Number} (h : n.Spells word) : Spells word (number n)
  | string {word : List Char} {s : Literal} (h : Literal.Spells word s) : Spells word (string s)
  | fixed {t : Token} (hnumber : ∀ n, t ≠ number n) (hstring : ∀ s, t ≠ string s) :
    Spells t.write t

/-- Every token is written in one of its spellings. -/
lemma spells_write (t : Token) : t.Spells t.write := by
  cases t with
  | number n => exact .number (Number.spells_write n)
  | string s => exact .string (Literal.spells_write s)
  | _ => exact .fixed nofun nofun

lemma next?_of_number {cs rest : List Char} {n : Number} (h : Number.scan cs = some (n, rest)) :
    next? cs = some (number n, rest) := by
  rw [next?.eq_def]
  split
  all_goals first | cases h | rw [h]
  rfl

/-- A spelled token is read from the text it starts, which must not go on with a number. -/
lemma next?_append {word : List Char} {t : Token} (h : t.Spells word) {rest : List Char}
    (hrest : ∀ n, t = number n → Number.Closes rest) : next? (word ++ rest) = some (t, rest) := by
  cases h with
  | @number _ n h => exact next?_of_number (Number.scan_append h (hrest n rfl))
  | string h =>
    obtain ⟨cs, hcs, hscan⟩ := Literal.scan_append h rest
    rw [hcs, next?, hscan]
    rfl
  | fixed hnumber hstring =>
    cases t with
    | number n => exact absurd rfl (hnumber n)
    | string s => exact absurd rfl (hstring s)
    | bool b => cases b <;> rfl
    | _ => rfl

end Token

end CharacterSheet.Json
