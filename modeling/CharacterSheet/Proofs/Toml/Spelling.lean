import CharacterSheet.Proofs.Text.Trim
import CharacterSheet.Proofs.Toml.Assembly
import CharacterSheet.Proofs.Toml.Numeral

/-!
Spellings of TOML statements: headers, and assignments of integers, of arrays of integers and of
inline tables of integers to bare or dotted keys, with any blanks between their parts. Each spelling
is read as its statement where a line may end.
-/
namespace CharacterSheet.Toml

open Number (isDelimiter Closes)
open Quoted (isBlank)

variable {cs rest blanks word : List Char} {c : Char}

/-! ### Between words -/

lemma isDelimiter_of_isBlank (h : isBlank c) : isDelimiter c := by
  simp only [isBlank, Bool.or_eq_true, beq_iff_eq] at h
  rcases h with rfl | rfl <;> rfl

lemma skipBlanks_append (h : Blanks blanks) (hc : ¬ isBlank c) :
    skipBlanks (blanks ++ c :: rest) = c :: rest :=
  dropWhile_append_of_head h fun d hd => by cases hd; exact hc

/-- The characters that blanks, comments and line ends start with. -/
def gaps : List Char := [' ', '\t', '\r', '\n', '#']

lemma skipLines_of_not_gap (hc : c ∉ gaps) : skipLines false (c :: rest) = some (c :: rest) := by
  simp only [gaps, List.mem_cons, List.not_mem_nil, or_false, not_or] at hc
  obtain ⟨hspace, htab, hreturn, hfeed, hhash⟩ := hc
  rw [skipLines]
  · simp [hfeed, hhash, isBlank, hspace, htab]
  · rintro _ rfl
    exact absurd rfl hreturn

lemma skipLines_append (h : Blanks blanks) (hc : c ∉ gaps) :
    skipLines false (blanks ++ c :: rest) = some (c :: rest) := by
  induction blanks with
  | nil => exact skipLines_of_not_gap hc
  | cons blank blanks ih =>
    obtain ⟨hblank, hblanks⟩ := List.forall_mem_cons.mp h
    rw [← ih hblanks]
    simp only [isBlank, Bool.or_eq_true, beq_iff_eq] at hblank
    rcases hblank with rfl | rfl <;> rfl

lemma not_isBare_of_isDelimiter (h : isDelimiter c) : ¬ isBare c := by
  simp only [isDelimiter, decide_eq_true_eq, List.mem_cons, List.not_mem_nil, or_false] at h
  rcases h with rfl | rfl | rfl | rfl | rfl | rfl | rfl | rfl | rfl | rfl | rfl | rfl <;> decide

/-- A text begins with the first character of a key or a number. -/
def Starts (cs : List Char) : Prop := ∃ c tail, cs = c :: tail ∧ (isBare c ∨ c = '+')

lemma Starts.exists_cons (h : Starts cs) : ∃ c tail, cs = c :: tail := by
  obtain ⟨c, tail, rfl, -⟩ := h
  exact ⟨c, tail, rfl⟩

lemma Starts.head_ne (h : Starts (c :: rest)) {d : Char} (hd : isDelimiter d) : c ≠ d := by
  obtain ⟨_, _, ⟨⟩, hc⟩ := h
  rintro rfl
  rcases hc with hc | rfl
  · exact not_isBare_of_isDelimiter hd hc
  · cases hd

lemma Starts.not_isBlank (h : Starts (c :: rest)) : ¬ isBlank c :=
  fun hblank => h.head_ne (isDelimiter_of_isBlank hblank) rfl

lemma Starts.not_mem_gaps (h : Starts (c :: rest)) : c ∉ gaps := by
  simp only [gaps, List.mem_cons, List.not_mem_nil, or_false, not_or]
  refine ⟨?_, ?_, ?_, ?_, ?_⟩ <;> exact h.head_ne rfl

lemma skipBlanks_of_starts (h : Blanks blanks) (hcs : Starts cs) :
    skipBlanks (blanks ++ cs) = cs := by
  obtain ⟨c, tail, rfl⟩ := hcs.exists_cons
  exact skipBlanks_append h hcs.not_isBlank

lemma skipLines_of_starts (h : Blanks blanks) (hcs : Starts cs) :
    skipLines false (blanks ++ cs) = some cs := by
  obtain ⟨c, tail, rfl⟩ := hcs.exists_cons
  exact skipLines_append h hcs.not_mem_gaps

/-- A value or a line ends after blanks and a closing character. -/
lemma closes_append (h : Blanks blanks) (hblank : ¬ isBlank c) (hc : c ∈ Number.closers) :
    Closes (blanks ++ c :: rest) := by
  rw [Closes, skipBlanks_append h hblank]
  rintro _ ⟨⟩
  exact hc

/-! ### Keys -/

/-- A key that can be written without quotes. -/
def Bare (key : String) : Prop := key.toList ≠ [] ∧ ∀ c ∈ key.toList, isBare c

instance (key : String) : Decidable (Bare key) :=
  decidable_of_iff ((!key.toList.isEmpty && key.toList.all isBare) = true) (by simp [Bare])

lemma Bare.starts {key : String} (h : Bare key) : ∀ rest, Starts (key.toList ++ rest) := by
  obtain ⟨hne, hall⟩ := h
  obtain ⟨c, cs, hcs⟩ := List.exists_cons_of_ne_nil hne
  intro rest
  rw [hcs]
  exact ⟨c, cs ++ rest, rfl, .inl (hall c (hcs ▸ List.mem_cons_self))⟩

lemma scanKeyPart_append {key : String} (h : Bare key) (hrest : ∀ c ∈ rest.head?, ¬ isBare c) :
    scanKeyPart (key.toList ++ rest) = some (key, rest) := by
  obtain ⟨hne, hall⟩ := h
  have hdrop : (key.toList ++ rest).dropWhile isBare = rest := dropWhile_append_of_head hall hrest
  have htake : (key.toList ++ rest).takeWhile isBare = key.toList := by
    have hparts := (key.toList ++ rest).takeWhile_append_dropWhile (p := isBare)
    rw [hdrop] at hparts
    exact List.append_cancel_right hparts
  have hquote : ∀ c tail, key.toList ++ rest = c :: tail → isBare c := by
    intro c tail heq
    obtain ⟨first, cs, hcs⟩ := List.exists_cons_of_ne_nil hne
    rw [hcs] at heq
    cases heq
    exact hall c (hcs ▸ List.mem_cons_self)
  rw [scanKeyPart.eq_def]
  split
  · next heq => exact absurd (hquote _ _ heq) (by decide)
  · next heq => exact absurd (hquote _ _ heq) (by decide)
  · dsimp only
    rw [htake, if_neg hne, hdrop, String.ofList_toList]

/-- A bare or dotted key, with blanks around its dots and after it. -/
inductive Path.Spells : List Char → Path → Prop where
  | last {key : String} {blanks : List Char} (hkey : Bare key) (hblanks : Blanks blanks) :
    Spells (key.toList ++ blanks) ⟨[], key⟩
  | dotted {key : String} {before after word : List Char} {path : Path} (hkey : Bare key)
    (hbefore : Blanks before) (hafter : Blanks after) (h : Spells word path) :
    Spells (key.toList ++ (before ++ '.' :: (after ++ word))) ⟨key :: path.parents, path.last⟩

lemma Path.Spells.starts {path : Path} (h : Spells word path) (rest : List Char) :
    Starts (word ++ rest) := by
  cases h with
  | last hkey =>
    rw [List.append_assoc]
    exact hkey.starts _
  | dotted hkey =>
    rw [List.append_assoc]
    exact hkey.starts _

lemma not_isBare_of_blanks (h : Blanks blanks) (hc : isDelimiter c) :
    ∀ d ∈ (blanks ++ c :: rest).head?, ¬ isBare d := by
  cases blanks with
  | nil =>
    rintro _ ⟨⟩
    exact not_isBare_of_isDelimiter hc
  | cons blank blanks =>
    rintro _ ⟨⟩
    exact not_isBare_of_isDelimiter (isDelimiter_of_isBlank (h _ List.mem_cons_self))

/-- A key is read up to the sign or the bracket after it. -/
lemma scanPath_append {path : Path} (h : Path.Spells word path) {parts : ℕ}
    (hparts : path.parents.length < parts) (hc : c = '=' ∨ c = ']') :
    scanPath parts (word ++ c :: rest) = some (path, c :: rest) := by
  have hdelimiter : isDelimiter c := by rcases hc with rfl | rfl <;> rfl
  have hblank : ¬ isBlank c := by rcases hc with rfl | rfl <;> decide
  induction h generalizing parts with
  | last hkey hblanks =>
    obtain ⟨parts, rfl⟩ := Nat.exists_eq_succ_of_ne_zero (Nat.ne_of_gt hparts)
    rw [scanPath, List.append_assoc,
      scanKeyPart_append hkey (not_isBare_of_blanks hblanks hdelimiter), Option.bind_eq_bind,
      Option.bind_some]
    dsimp only
    rw [skipBlanks_append hblanks hblank]
    rcases hc with rfl | rfl <;> rfl
  | @dotted key before after word path hkey hbefore hafter h ih =>
    obtain ⟨parts, rfl⟩ := Nat.exists_eq_succ_of_ne_zero (Nat.ne_of_gt (Nat.zero_lt_of_lt hparts))
    have hskip : skipBlanks (after ++ (word ++ c :: rest)) = word ++ c :: rest :=
      skipBlanks_of_starts hafter (h.starts _)
    rw [scanPath, List.append_assoc, List.append_assoc, List.cons_append, List.append_assoc,
      scanKeyPart_append hkey (not_isBare_of_blanks hbefore rfl), Option.bind_eq_bind,
      Option.bind_some]
    dsimp only
    rw [skipBlanks_append hbefore (by decide)]
    change (scanPath parts (skipBlanks (after ++ (word ++ c :: rest)))).bind _ = _
    rw [hskip, ih (Nat.lt_of_succ_lt_succ hparts)]
    rfl

/-! ### Values -/

/-- Items in order with commas between them, up to a closing bracket, with any blanks around them. A
comma may follow the last item. -/
inductive Listed {α : Type} (Spells : List Char → α → Prop) (close : Char) :
    List Char → List α → Prop where
  | nil {blanks : List Char} (hblanks : Blanks blanks) : Listed Spells close (blanks ++ [close]) []
  | last {before word after : List Char} {a : α} (hbefore : Blanks before) (hword : Spells word a)
    (hafter : Blanks after) :
    Listed Spells close (before ++ (word ++ (after ++ [close]))) [a]
  | cons {before word after cs : List Char} {a : α} {as : List α} (hbefore : Blanks before)
    (hword : Spells word a) (hafter : Blanks after) (h : Listed Spells close cs as) :
    Listed Spells close (before ++ (word ++ (after ++ ',' :: cs))) (a :: as)

/-- A key and a value with an equals sign between them. -/
inductive Assigns {α : Type} (Spells : List Char → α → Prop) : List Char → Path → α → Prop where
  | mk {key blanks word : List Char} {path : Path} {a : α} (hkey : Path.Spells key path)
    (hparts : path.parents.length < maxParts) (hblanks : Blanks blanks) (hword : Spells word a) :
    Assigns Spells (key ++ '=' :: (blanks ++ word)) path a

lemma Assigns.starts {α : Type} {Spells : List Char → α → Prop} {path : Path} {a : α}
    (h : Assigns Spells word path a) (rest : List Char) : Starts (word ++ rest) := by
  obtain ⟨hkey, -, -, -⟩ := h
  rw [List.append_assoc]
  exact hkey.starts _

/-- A member of an inline table of integers. -/
def SpellsMember (word : List Char) (member : String × ℤ) : Prop :=
  Assigns Number.Spells word ⟨[], member.1⟩ member.2

/-- Integers as values. -/
def integers (numbers : List ℤ) : List Value := numbers.map .integer

/-- Members with integers as entries. -/
def integerEntries (members : List (String × ℤ)) : Entries :=
  members.map fun member => (member.1, .integer member.2)

/-- An integer, an array of integers, or an inline table of integers with distinct keys. -/
inductive Value.Spells : List Char → Value → Prop where
  | integer {word : List Char} {n : ℤ} (h : Number.Spells word n) : Spells word (.integer n)
  | array {cs : List Char} {numbers : List ℤ} (h : Listed Number.Spells ']' cs numbers) :
    Spells ('[' :: cs) (.array (integers numbers))
  | table {cs : List Char} {members : List (String × ℤ)} (h : Listed SpellsMember '\x7d' cs members)
    (hkeys : DistinctKeys members) : Spells ('\x7b' :: cs) (.table (integerEntries members))

lemma Number.Spells.starts {n : ℤ} (h : Number.Spells word n) (rest : List Char) :
    Starts (word ++ rest) := by
  obtain ⟨c, cs, rfl, hc⟩ := h.exists_cons
  refine ⟨c, cs ++ rest, rfl, ?_⟩
  simp only [List.mem_cons, List.not_mem_nil, or_false] at hc
  rcases hc with rfl | rfl | rfl | rfl | rfl | rfl | rfl | rfl | rfl | rfl | rfl | rfl <;> decide

/-- A reader of values that reads integers where a value may end. -/
def ReadsIntegers (item : List Char → Option (Value × List Char)) : Prop :=
  ∀ word n rest, Number.Spells word n → Closes rest →
    item (word ++ rest) = some (.integer n, rest)

lemma readsIntegers_scanValue (depth : ℕ) : ReadsIntegers (scanValue depth) := by
  intro word n rest h hrest
  have hscalar := Number.scanScalar_append h hrest
  obtain ⟨c, cs, rfl, hc⟩ := h.exists_cons
  have hbracket : c ≠ '[' := by rintro rfl; simp at hc
  have hbrace : c ≠ '\x7b' := by rintro rfl; simp at hc
  rw [← hscalar]
  cases depth <;> simp [scanValue, hbracket, hbrace]

variable {item : List Char → Option (Value × List Char)}

lemma scanItems_last {steps : ℕ} {value : Value} {after : List Char}
    (hskip : skipLines false cs = some word) (hstart : Starts word)
    (hvalue : item word = some (value, after))
    (hclose : skipLines false after = some (']' :: rest)) :
    scanItems item (steps + 1) cs = some ([value], rest) := by
  obtain ⟨c, tail, rfl⟩ := hstart.exists_cons
  rw [scanItems, hskip, Option.bind_eq_bind, Option.bind_some]
  split
  · next heq =>
    cases heq
    exact absurd rfl (hstart.head_ne rfl)
  · rw [hvalue, Option.bind_eq_bind, Option.bind_some]
    dsimp only
    rw [hclose]
    rfl

lemma scanItems_cons {steps : ℕ} {value : Value} {values : List Value} {after more : List Char}
    (hskip : skipLines false cs = some word) (hstart : Starts word)
    (hvalue : item word = some (value, after)) (hcomma : skipLines false after = some (',' :: more))
    (hmore : scanItems item steps more = some (values, rest)) :
    scanItems item (steps + 1) cs = some (value :: values, rest) := by
  obtain ⟨c, tail, rfl⟩ := hstart.exists_cons
  rw [scanItems, hskip, Option.bind_eq_bind, Option.bind_some]
  split
  · next heq =>
    cases heq
    exact absurd rfl (hstart.head_ne rfl)
  · rw [hvalue, Option.bind_eq_bind, Option.bind_some]
    dsimp only
    rw [hcomma]
    change (scanItems item steps more).bind _ = _
    rw [hmore]
    rfl

lemma scanItems_append (hitem : ReadsIntegers item) {numbers : List ℤ}
    (h : Listed Number.Spells ']' cs numbers) {steps : ℕ} (hsteps : cs.length ≤ steps) :
    scanItems item steps (cs ++ rest) = some (integers numbers, rest) := by
  induction h generalizing steps with
  | nil hblanks =>
    cases steps with
    | zero => simp at hsteps
    | succ steps =>
      rw [scanItems, List.append_assoc, List.cons_append, skipLines_append hblanks (by decide)]
      rfl
  | last hbefore hword hafter =>
    cases steps with
    | zero => simp at hsteps
    | succ steps =>
      simp only [List.append_assoc, List.cons_append, List.nil_append]
      exact scanItems_last (skipLines_of_starts hbefore (hword.starts _)) (hword.starts _)
        (hitem _ _ _ hword (closes_append hafter (by decide) (by decide)))
        (skipLines_append hafter (by decide))
  | cons hbefore hword hafter h ih =>
    cases steps with
    | zero => simp at hsteps
    | succ steps =>
      simp only [List.length_append, List.length_cons] at hsteps
      simp only [List.append_assoc, List.cons_append]
      exact scanItems_cons (skipLines_of_starts hbefore (hword.starts _)) (hword.starts _)
        (hitem _ _ _ hword (closes_append hafter (by decide) (by decide)))
        (skipLines_append hafter (by decide)) (ih (by omega))

lemma scanInline_last {steps : ℕ} {path : Path} {value : Value} {tail number after : List Char}
    (hskip : skipLines false cs = some word) (hstart : Starts word)
    (hpath : scanPath maxParts word = some (path, '=' :: tail))
    (hnumber : skipLines false tail = some number) (hvalue : item number = some (value, after))
    (hclose : skipLines false after = some ('\x7d' :: rest)) :
    scanInline item (steps + 1) cs = some ([(path.parents, path.last, value)], rest) := by
  obtain ⟨c, _, rfl⟩ := hstart.exists_cons
  rw [scanInline, hskip, Option.bind_eq_bind, Option.bind_some]
  split
  · next heq =>
    cases heq
    exact absurd rfl (hstart.head_ne rfl)
  · rw [hpath, Option.bind_eq_bind, Option.bind_some]
    dsimp only
    rw [skipLines_of_not_gap (by decide)]
    change (skipLines false tail).bind _ = _
    rw [hnumber, Option.bind_some, hvalue]
    change (skipLines false after).bind _ = _
    rw [hclose]
    rfl

lemma scanInline_cons {steps : ℕ} {path : Path} {value : Value}
    {assignments : List (List String × String × Value)} {tail number after more : List Char}
    (hskip : skipLines false cs = some word) (hstart : Starts word)
    (hpath : scanPath maxParts word = some (path, '=' :: tail))
    (hnumber : skipLines false tail = some number) (hvalue : item number = some (value, after))
    (hcomma : skipLines false after = some (',' :: more))
    (hmore : scanInline item steps more = some (assignments, rest)) :
    scanInline item (steps + 1) cs =
      some ((path.parents, path.last, value) :: assignments, rest) := by
  obtain ⟨c, _, rfl⟩ := hstart.exists_cons
  rw [scanInline, hskip, Option.bind_eq_bind, Option.bind_some]
  split
  · next heq =>
    cases heq
    exact absurd rfl (hstart.head_ne rfl)
  · rw [hpath, Option.bind_eq_bind, Option.bind_some]
    dsimp only
    rw [skipLines_of_not_gap (by decide)]
    change (skipLines false tail).bind _ = _
    rw [hnumber, Option.bind_some, hvalue]
    change (skipLines false after).bind _ = _
    rw [hcomma]
    change (scanInline item steps more).bind _ = _
    rw [hmore]
    rfl

/-- The assignment of an integer to a key of its own. -/
def plainMember (member : String × ℤ) : List String × String × Value :=
  ([], member.1, .integer member.2)

lemma scanInline_append (hitem : ReadsIntegers item) {members : List (String × ℤ)}
    (h : Listed SpellsMember '\x7d' cs members) {steps : ℕ} (hsteps : cs.length ≤ steps) :
    scanInline item steps (cs ++ rest) = some (members.map plainMember, rest) := by
  induction h generalizing steps with
  | nil hblanks =>
    cases steps with
    | zero => simp at hsteps
    | succ steps =>
      rw [scanInline, List.append_assoc, List.cons_append, skipLines_append hblanks (by decide)]
      rfl
  | last hbefore hword hafter =>
    cases steps with
    | zero => simp at hsteps
    | succ steps =>
      have hstart := Assigns.starts hword
      obtain ⟨hkey, hparts, hblanks, hnumber⟩ := hword
      simp only [List.append_assoc, List.cons_append, List.nil_append] at *
      exact scanInline_last (skipLines_of_starts hbefore (hstart _)) (hstart _)
        (scanPath_append hkey hparts (.inl rfl)) (skipLines_of_starts hblanks (hnumber.starts _))
        (hitem _ _ _ hnumber (closes_append hafter (by decide) (by decide)))
        (skipLines_append hafter (by decide))
  | cons hbefore hword hafter h ih =>
    cases steps with
    | zero => simp at hsteps
    | succ steps =>
      have hstart := Assigns.starts hword
      simp only [List.length_append, List.length_cons] at hsteps
      obtain ⟨hkey, hparts, hblanks, hnumber⟩ := hword
      simp only [List.append_assoc, List.cons_append] at *
      exact scanInline_cons (skipLines_of_starts hbefore (hstart _)) (hstart _)
        (scanPath_append hkey hparts (.inl rfl)) (skipLines_of_starts hblanks (hnumber.starts _))
        (hitem _ _ _ hnumber (closes_append hafter (by decide) (by decide)))
        (skipLines_append hafter (by decide)) (ih (by omega))

lemma DistinctKeys.integerEntries {members : List (String × ℤ)} (h : DistinctKeys members) :
    DistinctKeys (integerEntries members) := by
  rw [DistinctKeys, Toml.integerEntries, List.map_map]
  exact h

lemma ofAssignments?_plainMember {members : List (String × ℤ)} (h : DistinctKeys members) :
    Entries.ofAssignments? (members.map plainMember) = some (integerEntries members) := by
  rw [← ofAssignments?_plain h.integerEntries, integerEntries, List.map_map]
  rfl

/-- A value is read where a line may end. -/
lemma scanValue_append {value : Value} (h : Value.Spells word value) (hrest : Closes rest) :
    scanValue maxDepth (word ++ rest) = some (value, rest) := by
  cases h with
  | integer h => exact readsIntegers_scanValue maxDepth _ _ _ h hrest
  | @array cs numbers h =>
    have hsteps : cs.length ≤ ('[' :: (cs ++ rest)).length := by
      rw [List.length_cons, List.length_append]
      omega
    change (scanItems (scanValue (maxDepth - 1)) ('[' :: (cs ++ rest)).length
      (cs ++ rest)).map _ = _
    rw [scanItems_append (readsIntegers_scanValue _) h hsteps]
    rfl
  | @table cs members h hkeys =>
    have hsteps : cs.length ≤ ('\x7b' :: (cs ++ rest)).length := by
      rw [List.length_cons, List.length_append]
      omega
    change (scanInline (scanValue (maxDepth - 1)) ('\x7b' :: (cs ++ rest)).length
      (cs ++ rest)).bind _ = _
    rw [scanInline_append (readsIntegers_scanValue _) h hsteps, Option.bind_some]
    dsimp only
    rw [ofAssignments?_plainMember hkeys]
    rfl

/-! ### Statements -/

/-- A header, or an assignment. -/
inductive Statement.Spells : List Char → Statement → Prop where
  | assign {word : List Char} {path : Path} {value : Value}
    (h : Assigns Value.Spells word path value) : Spells word (.assign path value)
  | table {blanks key : List Char} {path : Path} (hblanks : Blanks blanks)
    (hkey : Path.Spells key path) (hparts : path.parents.length < maxParts) :
    Spells ('[' :: (blanks ++ (key ++ [']']))) (.table path)

lemma skipBlanks_append_value {value : Value} (h : Blanks blanks)
    (hword : Value.Spells word value) :
    skipBlanks (blanks ++ (word ++ rest)) = word ++ rest := by
  cases hword with
  | integer hword => exact skipBlanks_of_starts h (hword.starts rest)
  | array | table => exact skipBlanks_append h (by decide)

/-- A statement starts with a bracket or like a key. -/
lemma Statement.Spells.exists_cons {statement : Statement} (h : Statement.Spells word statement)
    (rest : List Char) : ∃ c tail, word ++ rest = c :: tail ∧ (c = '[' ∨ Starts (c :: tail)) := by
  cases h with
  | assign h =>
    have hstart := h.starts rest
    obtain ⟨c, tail, hcs⟩ := hstart.exists_cons
    exact ⟨c, tail, hcs, .inr (hcs ▸ hstart)⟩
  | table => exact ⟨_, _, rfl, .inl rfl⟩

lemma scanAssignment_append {path : Path} {value : Value} (h : Assigns Value.Spells word path value)
    (hrest : Closes rest) :
    Statement.scanAssignment (word ++ rest) = some (.assign path value, rest) := by
  obtain ⟨hkey, hparts, hblanks, hvalue⟩ := h
  rw [Statement.scanAssignment, List.append_assoc, List.cons_append, List.append_assoc,
    scanPath_append hkey hparts (.inl rfl), Option.bind_eq_bind, Option.bind_some]
  change (scanValue maxDepth _).bind _ = _
  rw [skipBlanks_append_value hblanks hvalue, scanValue_append hvalue hrest]
  rfl

/-- A statement is read where a line may end. -/
lemma Statement.scan_append {statement : Statement} (h : Statement.Spells word statement)
    (hrest : Closes rest) : Statement.scan (word ++ rest) = some (statement, rest) := by
  cases h with
  | assign h =>
    have hscan := scanAssignment_append h hrest
    have hstart := h.starts rest
    rw [Statement.scan.eq_def]
    split
    · next heq => exact absurd rfl ((heq ▸ hstart).head_ne rfl)
    · next heq => exact absurd rfl ((heq ▸ hstart).head_ne rfl)
    · exact hscan
  | table hblanks hkey hparts =>
    have hstart := hkey.starts (']' :: rest)
    have hskip := skipBlanks_of_starts hblanks hstart
    simp only [List.cons_append, List.append_assoc, List.nil_append]
    rw [Statement.scan.eq_def]
    split
    · next heq =>
      rw [(List.cons.inj heq).2] at hskip
      rw [← hskip] at hstart
      exact absurd rfl (hstart.head_ne (c := '[') rfl)
    · next heq =>
      rw [← (List.cons.inj heq).2, hskip, scanPath_append hkey hparts (.inr rfl)]
      rfl
    · next hnot => exact absurd rfl (hnot _)

end CharacterSheet.Toml
