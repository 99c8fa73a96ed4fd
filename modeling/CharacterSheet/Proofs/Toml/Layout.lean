import CharacterSheet.Proofs.Toml.Spelling
import CharacterSheet.Toml.Document

/-!
Layouts of TOML texts: statements on lines of their own, with empty lines and comments among them. A
text is read as the statements that are laid out in it.
-/
namespace CharacterSheet.Toml

open Number (Closes)
open Quoted (isBlank isPlain)

/-- Nothing, or a comment. -/
inductive Comment : List Char → Prop where
  | none : Comment []
  | text {cs : List Char} (h : ∀ c ∈ cs, isPlain c) : Comment ('#' :: cs)

/-- A line break and what follows it; the last line may end with the text. -/
inductive Breaks : List Char → List Char → Prop where
  | feed {rest : List Char} : Breaks ('\n' :: rest) rest
  | returnFeed {rest : List Char} : Breaks ('\r' :: '\n' :: rest) rest
  | endOfText : Breaks [] []

/-- The end of a line and what follows it: blanks, perhaps a comment, and a line break. -/
inductive EndsLine : List Char → List Char → Prop where
  | mk {blanks comment after rest : List Char} (hblanks : Blanks blanks)
    (hcomment : Comment comment) (hbreak : Breaks after rest) :
    EndsLine (blanks ++ (comment ++ after)) rest

/-- A text in which statements stand in order, each on a line of its own. -/
inductive LaidOut : List Char → List Statement → Prop where
  | nil : LaidOut [] []
  | empty {cs rest : List Char} {statements : List Statement} (hend : EndsLine cs rest)
    (h : LaidOut rest statements) : LaidOut cs statements
  | line {blanks word cs rest : List Char} {statement : Statement} {statements : List Statement}
    (hblanks : Blanks blanks) (hword : Statement.Spells word statement) (hend : EndsLine cs rest)
    (h : LaidOut rest statements) : LaidOut (blanks ++ (word ++ cs)) (statement :: statements)

variable {cs rest after blanks : List Char}

/-! ### Ends of lines -/

lemma skipComment_append (h : ∀ c ∈ cs, isPlain c) (hbreak : Breaks after rest) :
    skipComment (cs ++ after) = some after := by
  induction cs with
  | nil => cases hbreak <;> rfl
  | cons c cs ih =>
    obtain ⟨hc, hcs⟩ := List.forall_mem_cons.mp h
    rw [List.cons_append, skipComment, if_pos hc, ih hcs]
    · rintro rfl
      exact absurd hc (by decide)
    · rintro _ rfl
      exact absurd hc (by decide)

/-- What stands between a statement and the next line is one of a few characters. -/
lemma EndsLine.head_mem {comment : List Char} (hcomment : Comment comment)
    (hbreak : Breaks after rest) : ∀ c ∈ (comment ++ after).head?, c ∈ ['#', '\n', '\r'] := by
  cases hcomment <;> cases hbreak <;> simp

lemma skipBlanks_append_comment {comment : List Char} (hblanks : Blanks blanks)
    (hcomment : Comment comment) (hbreak : Breaks after rest) :
    skipBlanks (blanks ++ (comment ++ after)) = comment ++ after := by
  refine dropWhile_append_of_head hblanks fun c hc => ?_
  have hc := EndsLine.head_mem hcomment hbreak c hc
  simp only [List.mem_cons, List.not_mem_nil, or_false] at hc
  rcases hc with rfl | rfl | rfl <;> decide

lemma EndsLine.endLine_eq (h : EndsLine cs rest) : endLine cs = some rest := by
  obtain ⟨hblanks, hcomment, hbreak⟩ := h
  rw [endLine, skipBlanks_append_comment hblanks hcomment hbreak]
  cases hcomment with
  | none => cases hbreak <;> rfl
  | @text cs h =>
    have hplain : ∀ c ∈ '#' :: cs, isPlain c := List.forall_mem_cons.mpr ⟨rfl, h⟩
    change (skipComment (('#' :: cs) ++ _)).bind _ = _
    rw [skipComment_append hplain hbreak]
    cases hbreak <;> rfl

lemma EndsLine.closes (h : EndsLine cs rest) : Closes cs := by
  obtain ⟨hblanks, hcomment, hbreak⟩ := h
  rw [Closes, skipBlanks_append_comment hblanks hcomment hbreak]
  intro c hc
  have hc := EndsLine.head_mem hcomment hbreak c hc
  simp only [List.mem_cons, List.not_mem_nil, or_false] at hc
  rcases hc with rfl | rfl | rfl <;> decide

lemma EndsLine.length_le (h : EndsLine cs rest) : rest.length ≤ cs.length - 1 := by
  obtain ⟨-, -, hbreak⟩ := h
  simp only [List.length_append]
  cases hbreak <;> simp <;> omega

/-! ### Lines -/

lemma endLine_eq_none {c : Char} (h : Blanks blanks) (hc : c ∉ gaps) :
    endLine (blanks ++ c :: rest) = none := by
  simp only [gaps, List.mem_cons, List.not_mem_nil, or_false, not_or] at hc
  obtain ⟨hspace, htab, hreturn, hfeed, hhash⟩ := hc
  have hblank : ¬ isBlank c := by simp [isBlank, hspace, htab]
  rw [endLine, skipBlanks_append h hblank]
  simp [hhash, hreturn, hfeed]

/-- A character that a statement starts with is none of those between statements. -/
lemma not_mem_gaps_of_statement {c : Char} (h : c = '[' ∨ Starts (c :: rest)) : c ∉ gaps := by
  rcases h with rfl | h
  · decide
  · exact h.not_mem_gaps

lemma skipBlanks_append_statement {word : List Char} {statement : Statement} (h : Blanks blanks)
    (hword : Statement.Spells word statement) :
    skipBlanks (blanks ++ (word ++ rest)) = word ++ rest := by
  obtain ⟨c, tail, hcs, hc⟩ := hword.exists_cons rest
  rw [hcs]
  rcases hc with rfl | hc
  · exact skipBlanks_append h (by decide)
  · exact skipBlanks_of_starts h hc

lemma Statement.Spells.length_pos {word : List Char} {statement : Statement}
    (h : Statement.Spells word statement) : 0 < word.length := by
  obtain ⟨c, tail, hword, -⟩ := h.exists_cons []
  rw [List.append_nil] at hword
  rw [hword]
  exact Nat.succ_pos _

/-- The statements of a text are read in as many steps as it has characters. -/
lemma LaidOut.scanWithin_eq {statements : List Statement} (h : LaidOut cs statements) {steps : ℕ}
    (hsteps : cs.length ≤ steps) : Statement.scanWithin steps cs = some statements := by
  induction h generalizing steps with
  | nil => rw [Statement.scanWithin]
  | @empty cs rest statements hend _ ih =>
    have hlength := hend.length_le
    cases cs with
    | nil =>
      cases List.length_eq_zero_iff.mp (Nat.le_zero.mp hlength)
      exact ih hsteps
    | cons c cs =>
      cases steps with
      | zero => simp at hsteps
      | succ steps =>
        rw [List.length_cons] at hlength hsteps
        rw [Statement.scanWithin, hend.endLine_eq]
        exact ih (by omega)
  | @line blanks word cs rest statement statements hblanks hword hend _ ih =>
    obtain ⟨c, tail, hcs, hc⟩ := hword.exists_cons cs
    have hnone : endLine (blanks ++ (word ++ cs)) = none := by
      rw [hcs, endLine_eq_none hblanks (not_mem_gaps_of_statement hc)]
    have hlength : cs.length < (blanks ++ (word ++ cs)).length := by
      have hpos := hword.length_pos
      simp only [List.length_append]
      omega
    have hrest := hend.length_le
    obtain ⟨d, text, htext⟩ := List.exists_cons_of_length_pos (Nat.zero_lt_of_lt hlength)
    cases steps with
    | zero => omega
    | succ steps =>
      rw [htext, Statement.scanWithin, ← htext, hnone, skipBlanks_append_statement hblanks hword,
        Statement.scan_append hword hend.closes]
      change (endLine cs).bind _ = _
      rw [hend.endLine_eq, Option.bind_some, ih (by omega)]
      rfl

/-- No byte order mark belongs to a layout. -/
lemma LaidOut.dropMark_eq {statements : List Statement} (h : LaidOut cs statements) :
    dropMark cs = cs := by
  have hmark : ∀ tail, cs ≠ '\uFEFF' :: tail := by
    rintro tail rfl
    have hskip : skipBlanks ('\uFEFF' :: tail) = '\uFEFF' :: tail := rfl
    generalize hcs : '\uFEFF' :: tail = cs at h hskip
    cases h with
    | nil => cases hcs
    | empty hend =>
      obtain ⟨hblanks, hcomment, hbreak⟩ := hend
      rw [skipBlanks_append_comment hblanks hcomment hbreak, ← hcs] at hskip
      have hmem := EndsLine.head_mem hcomment hbreak '\uFEFF' (by rw [hskip]; rfl)
      exact absurd hmem (by decide)
    | @line _ _ cs _ _ _ hblanks hword =>
      obtain ⟨c, rest, hword', hc⟩ := hword.exists_cons cs
      rw [skipBlanks_append_statement hblanks hword, ← hcs, hword'] at hskip
      cases hskip
      rcases hc with hc | ⟨_, _, ⟨⟩, hc⟩ <;> exact absurd hc (by decide)
  rw [dropMark.eq_def]
  split
  · exact absurd rfl (hmark _)
  · rfl

lemma LaidOut.scanAll_eq {statements : List Statement} (h : LaidOut cs statements) :
    Statement.scanAll cs = some statements :=
  h.scanWithin_eq le_rfl

/-- A text is read as the document that its statements make, with or without a byte order mark in
front of it. -/
theorem LaidOut.read?_eq {text : String} {statements : List Statement} (h : LaidOut cs statements)
    (htext : text.toList = cs ∨ text.toList = '\uFEFF' :: cs) :
    Entries.read? text = Entries.ofStatements? statements := by
  have hdrop : dropMark text.toList = cs := by
    rcases htext with htext | htext
    · rw [htext, h.dropMark_eq]
    · rw [htext]
      rfl
  rw [Entries.read?, hdrop, h.scanAll_eq]
  rfl

end CharacterSheet.Toml
