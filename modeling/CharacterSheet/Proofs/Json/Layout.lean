import CharacterSheet.Json.Text
import CharacterSheet.Proofs.Json.Spelling
import Mathlib.Data.List.Chain

/-!
All the ways to lay out a JSON value as a text: its tokens in any of their spellings, with any
number of spaces, tabs and line ends before, between and after them. The reader of texts takes each
layout for the value, since no two numbers stand next to each other in a value.
-/
namespace CharacterSheet.Json

namespace Token

/-- A text that spells tokens one after the other, with any spaces around them. -/
inductive SpellsAll : List Char → List Token → Prop where
  | nil : SpellsAll [] []
  | space {c : Char} {cs : List Char} {tokens : List Token} (hc : isSpace c = true)
    (h : SpellsAll cs tokens) : SpellsAll (c :: cs) tokens
  | token {word cs : List Char} {t : Token} {tokens : List Token} (ht : t.Spells word)
    (h : SpellsAll cs tokens) : SpellsAll (word ++ cs) (t :: tokens)

inductive IsNumber : Token → Prop where
  | number (n : Number) : IsNumber (number n)

/-- Tokens that may stand next to each other without a space between them. -/
def Apart (s t : Token) : Prop := ¬ (s.IsNumber ∧ t.IsNumber)

lemma SpellsAll.append_spaces {cs spaces : List Char} {tokens : List Token}
    (h : SpellsAll cs tokens)
    (hspaces : ∀ c ∈ spaces, isSpace c = true) : SpellsAll (spaces ++ cs) tokens := by
  induction spaces with
  | nil => exact h
  | cons c spaces ih =>
    obtain ⟨hc, hspaces⟩ := List.forall_mem_cons.mp hspaces
    exact .space hc (ih hspaces)

/-- Tokens may be written with the same spaces before each of them. -/
lemma spellsAll_write {spaces : List Char} (hspaces : ∀ c ∈ spaces, isSpace c = true)
    (tokens : List Token) : SpellsAll (tokens.flatMap fun t => spaces ++ t.write) tokens := by
  induction tokens with
  | nil => exact .nil
  | cons t tokens ih =>
    rw [List.flatMap_cons, List.append_assoc]
    exact (SpellsAll.token (spells_write t) ih).append_spaces hspaces

lemma closes_of_isSpace {c : Char} (h : isSpace c = true) :
    Digit.decimal? c = none ∧ c ≠ '.' ∧ c ≠ 'e' ∧ c ≠ 'E' := by
  simp only [isSpace, Bool.or_eq_true, beq_iff_eq] at h
  rcases h with ((rfl | rfl) | rfl) | rfl <;> decide

/-- Only another number can go on with a number. -/
lemma closes_of_spells {word : List Char} {t : Token} (h : t.Spells word) (ht : ¬ t.IsNumber)
    (rest : List Char) : Number.Closes (word ++ rest) := by
  cases h with
  | number => exact absurd (.number _) ht
  | string h =>
    obtain ⟨cs, hcs, -⟩ := Literal.scan_append h rest
    rw [hcs]
    rintro c ⟨⟩
    decide
  | fixed hnumber hstring =>
    cases t with
    | number n => exact absurd rfl (hnumber n)
    | string s => exact absurd rfl (hstring s)
    | bool b =>
      cases b
      all_goals
        rintro c ⟨⟩
        decide
    | _ =>
      rintro c ⟨⟩
      decide

lemma closes_of_spellsAll {cs : List Char} {tokens : List Token} (h : SpellsAll cs tokens)
    (htokens : ∀ t ∈ tokens.head?, ¬ t.IsNumber) : Number.Closes cs := by
  cases h with
  | nil => nofun
  | space hc =>
    rintro c ⟨⟩
    exact closes_of_isSpace hc
  | token ht => exact closes_of_spells ht (htokens _ rfl) _

lemma next?_of_isSpace {c : Char} (h : isSpace c = true) (cs : List Char) :
    next? (c :: cs) = none := by
  simp only [isSpace, Bool.or_eq_true, beq_iff_eq] at h
  rcases h with ((rfl | rfl) | rfl) | rfl <;> rfl

/-- A spelling has at least one character. -/
lemma length_pos_of_spells {word : List Char} {t : Token} (h : t.Spells word) :
    0 < word.length := by
  have hnext : next? (word ++ []) = some (t, []) := next?_append h fun _ _ => nofun
  cases word with
  | nil => cases hnext
  | cons c word => exact Nat.succ_pos _

lemma scanWithin_of_next? {cs rest : List Char} {t : Token} (h : next? cs = some (t, rest))
    (steps : Nat) : scanWithin (steps + 1) cs = (scanWithin steps rest).map (t :: ·) := by
  cases cs with
  | nil => cases h
  | cons c cs =>
    rw [scanWithin]
    split_ifs with hc
    · rw [next?_of_isSpace hc] at h
      cases h
    · rw [h, Option.map_eq_bind]
      rfl

/-- Reading the tokens of a text gives the tokens that it spells, if no two numbers meet in it. -/
lemma scanWithin_of_spellsAll {cs : List Char} {tokens : List Token} (h : SpellsAll cs tokens)
    (hapart : tokens.IsChain Apart) {steps : Nat} (hsteps : cs.length ≤ steps) :
    scanWithin steps cs = some tokens := by
  induction h generalizing steps with
  | nil => cases steps <;> rfl
  | space hc h ih =>
    cases steps with
    | zero => cases hsteps
    | succ steps =>
      rw [scanWithin, if_pos hc]
      exact ih hapart (Nat.le_of_succ_le_succ hsteps)
  | @token word cs t tokens ht h ih =>
    rw [List.isChain_cons] at hapart
    have hnext : next? (word ++ cs) = some (t, cs) := by
      refine next?_append ht fun n hn => closes_of_spellsAll h fun u hu hnumber => ?_
      exact hapart.1 u hu ⟨hn ▸ .number n, hnumber⟩
    have hpos := length_pos_of_spells ht
    rw [List.length_append] at hsteps
    obtain ⟨steps, rfl⟩ : ∃ k, steps = k + 1 := ⟨steps - 1, by omega⟩
    rw [scanWithin_of_next? hnext, ih hapart.2 (by omega)]
    rfl

lemma scan_of_spellsAll {cs : List Char} {tokens : List Token} (h : SpellsAll cs tokens)
    (hapart : tokens.IsChain Apart) : scan cs = some tokens :=
  scanWithin_of_spellsAll h hapart (Nat.le_refl _)

lemma isChain_apart_append {tokens others : List Token} {t : Token} (ht : ¬ t.IsNumber)
    (h : tokens.IsChain Apart) (hothers : others.IsChain Apart) :
    (tokens ++ t :: others).IsChain Apart := by
  rw [List.isChain_append, List.isChain_cons]
  refine ⟨h, ⟨fun u _ hu => ht hu.1, hothers⟩, ?_⟩
  rintro u - v ⟨⟩ hu
  exact ht hu.2

end Token

namespace Value

open Token

/-! No two numbers stand next to each other among the tokens of a value. -/

lemma isChain_separated {lists : List (List Token)} (h : ∀ tokens ∈ lists, tokens.IsChain Apart) :
    (separated lists).IsChain Apart := by
  induction lists with
  | nil => exact .nil
  | cons tokens lists ih =>
    obtain ⟨hfirst, hrest⟩ := List.forall_mem_cons.mp h
    cases lists with
    | nil => exact hfirst
    | cons => exact isChain_apart_append nofun hfirst (ih hrest)

lemma isChain_between {first last : Token} {tokens : List Token} (hfirst : ¬ first.IsNumber)
    (hlast : ¬ last.IsNumber) (h : tokens.IsChain Apart) :
    (first :: tokens ++ [last]).IsChain Apart :=
  @isChain_apart_append [] _ first hfirst .nil (isChain_apart_append hlast h .nil)

mutual

lemma isChain_toTokens : ∀ v : Value, v.toTokens.IsChain Apart
  | null | bool _ | number _ | string _ => by
    rw [toTokens]
    exact .singleton _
  | array items => by
    rw [toTokens]
    exact isChain_between nofun nofun (isChain_separated (isChain_itemsTokens items))
  | object members => by
    rw [toTokens]
    exact isChain_between nofun nofun (isChain_separated (isChain_membersTokens members))

lemma isChain_itemsTokens : ∀ items : List Value, ∀ tokens ∈ itemsTokens items, tokens.IsChain Apart
  | [] => by
    rw [itemsTokens]
    nofun
  | item :: items => by
    rw [itemsTokens, List.forall_mem_cons]
    exact ⟨isChain_toTokens item, isChain_itemsTokens items⟩

lemma isChain_membersTokens :
    ∀ members : List (Literal × Value), ∀ tokens ∈ membersTokens members, tokens.IsChain Apart
  | [] => by
    rw [membersTokens]
    nofun
  | (name, value) :: members => by
    rw [membersTokens, List.forall_mem_cons]
    refine ⟨?_, isChain_membersTokens members⟩
    exact @isChain_apart_append [_] _ .colon nofun (.singleton _) (isChain_toTokens value)

end

/-! Reading the tokens of a value. -/

/-- The items of an array do not start with its end. -/
lemma head?_items_ne (item : Value) (items : List Value) (rest : List Token) :
    (separated (itemsTokens (item :: items)) ++ rest).head? ≠ some .closeArray := by
  obtain ⟨t, tokens, htokens, ht⟩ : ∃ t tokens, item.toTokens = t :: tokens ∧ t ≠ .closeArray := by
    cases item with
    | _ =>
      rw [toTokens]
      exact ⟨_, _, rfl, nofun⟩
  cases items <;> simp [itemsTokens, separated, htokens, ht]

/-- The members of an object do not start with its end. -/
lemma head?_members_ne (member : Literal × Value) (members : List (Literal × Value))
    (rest : List Token) :
    (separated (membersTokens (member :: members)) ++ rest).head? ≠ some .closeObject := by
  cases members <;> simp [membersTokens, separated]

lemma takeValue_openArray {steps : Nat} {tokens : List Token}
    (h : tokens.head? ≠ some .closeArray) :
    takeValue (steps + 1) (.openArray :: tokens) =
      (takeItems steps tokens).map fun (items, rest) => (array items, rest) := by
  rw [takeValue]
  rintro rest rfl
  exact h rfl

lemma takeValue_openObject {steps : Nat} {tokens : List Token}
    (h : tokens.head? ≠ some .closeObject) :
    takeValue (steps + 1) (.openObject :: tokens) =
      (takeMembers steps tokens).map fun (members, rest) => (object members, rest) := by
  rw [takeValue]
  rintro rest rfl
  exact h rfl

mutual

lemma takeValue_toTokens : ∀ (v : Value) (steps : Nat) (rest : List Token),
    v.toTokens.length ≤ steps → takeValue steps (v.toTokens ++ rest) = some (v, rest)
  | v, 0, rest, h => by
    cases v with
    | _ =>
      rw [toTokens] at h
      simp at h
  | null, steps + 1, rest, _ | bool _, steps + 1, rest, _ | number _, steps + 1, rest, _
  | string _, steps + 1, rest, _ => by
    rw [toTokens]
    rfl
  | array [], steps + 1, rest, _ => by
    rw [toTokens, itemsTokens]
    rfl
  | array (item :: items), steps + 1, rest, h => by
    rw [toTokens, List.length_append, List.length_cons, List.length_singleton] at h
    have hitems := takeItems_separated item items steps rest (by omega)
    rw [toTokens, List.append_assoc, List.cons_append, List.singleton_append,
      takeValue_openArray (head?_items_ne item items _), hitems]
    rfl
  | object [], steps + 1, rest, _ => by
    rw [toTokens, membersTokens]
    rfl
  | object (member :: members), steps + 1, rest, h => by
    rw [toTokens, List.length_append, List.length_cons, List.length_singleton] at h
    have hmembers := takeMembers_separated member members steps rest (by omega)
    rw [toTokens, List.append_assoc, List.cons_append, List.singleton_append,
      takeValue_openObject (head?_members_ne member members _), hmembers]
    rfl

lemma takeItems_separated : ∀ (item : Value) (items : List Value) (steps : Nat) (rest : List Token),
    (separated (itemsTokens (item :: items))).length < steps →
      takeItems steps (separated (itemsTokens (item :: items)) ++ .closeArray :: rest) =
        some (item :: items, rest)
  | item, [], steps + 1, rest, h => by
    have hitem := takeValue_toTokens item steps (.closeArray :: rest) (Nat.le_of_lt_succ h)
    simp only [itemsTokens, separated, takeItems, hitem]
  | item, next :: items, steps + 1, rest, h => by
    simp only [itemsTokens, separated, List.length_append, List.length_cons] at h
    have hitem := takeValue_toTokens item steps
      (.comma :: (separated (itemsTokens (next :: items)) ++ .closeArray :: rest)) (by omega)
    have hitems := takeItems_separated next items steps rest (by rw [itemsTokens]; omega)
    rw [itemsTokens] at hitem hitems
    simp only [itemsTokens, separated, takeItems, List.append_assoc, List.cons_append, hitem,
      hitems]
    rfl

lemma takeMembers_separated : ∀ (member : Literal × Value) (members : List (Literal × Value))
    (steps : Nat) (rest : List Token),
    (separated (membersTokens (member :: members))).length < steps →
      takeMembers steps (separated (membersTokens (member :: members)) ++ .closeObject :: rest) =
        some (member :: members, rest)
  | (name, value), [], steps + 1, rest, h => by
    simp only [membersTokens, separated, List.length_cons] at h
    have hvalue := takeValue_toTokens value steps (.closeObject :: rest) (by omega)
    simp only [membersTokens, separated, takeMembers, List.cons_append, hvalue]
  | (name, value), (key, next) :: members, steps + 1, rest, h => by
    simp only [membersTokens, separated, List.length_append, List.length_cons] at h
    have hvalue := takeValue_toTokens value steps
      (.comma :: (separated (membersTokens ((key, next) :: members)) ++ .closeObject :: rest))
      (by omega)
    have hmembers := takeMembers_separated (key, next) members steps rest
      (by rw [membersTokens]; omega)
    rw [membersTokens] at hvalue hmembers
    simp only [membersTokens, separated, takeMembers, List.append_assoc, List.cons_append, hvalue,
      hmembers]
    rfl

end

/-- A text is a layout of a value: it spells the tokens of the value, with any spaces around them.
-/
def LaidOut (v : Value) (text : String) : Prop := Token.SpellsAll text.toList v.toTokens

lemma laidOut_text (v : Value) : v.LaidOut v.text := by
  rw [LaidOut, text, String.toList_ofList]
  exact @spellsAll_write [] nofun v.toTokens

lemma ofTokens?_toTokens (v : Value) : ofTokens? v.toTokens = some v := by
  have h := takeValue_toTokens v v.toTokens.length [] (Nat.le_refl _)
  rw [List.append_nil] at h
  rw [ofTokens?, h]

/-- Every layout of a value is read as that value. -/
lemma LaidOut.read? {v : Value} {text : String} (h : v.LaidOut text) : read? text = some v := by
  rw [Value.read?, scan_of_spellsAll h (isChain_toTokens v)]
  exact ofTokens?_toTokens v

end Value

end CharacterSheet.Json
