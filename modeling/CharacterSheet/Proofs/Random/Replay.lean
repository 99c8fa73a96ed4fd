import CharacterSheet.Proofs.Random.Script
import Mathlib.Algebra.Group.Nat.Defs

/-!
Replaying a script. Its values are taken in turn, one by each call that draws, and after the last
one it starts again; a call whose range holds at most one integer takes none, and an empty script
stays as it is. No operation on the way can break down.
-/
namespace CharacterSheet

/-- A call takes a value from a script unless it asks for a range of at most one integer. -/
def Call.consumes : Call → Bool
  | word => true
  | int lo hi => lo < hi

namespace Script

/-- A script of which a number of values have been taken; from an empty one there are none. -/
def after (values : List Int32) (taken : ℕ) : Script :=
  ⟨values, if values = [] then 0 else UInt64.ofNat taken⟩

@[simp] lemma after_zero (values : List Int32) : after values 0 = ofList values := by
  simp [after, ofList]

lemma position_after {values : List Int32} (h : values ≠ []) {k : ℕ} (hk : k < 2 ^ 64) :
    (after values k).position = k % values.length := by
  have hpos : 1 ≤ values.length := List.length_pos_iff.mpr h
  rw [position, after, if_neg h, UInt64.toNat_ofNat_of_lt' hk, Nat.max_eq_left hpos]

lemma position_lt {values : List Int32} (h : values ≠ []) (k : ℕ) :
    k % values.length < values.length :=
  Nat.mod_lt _ (List.length_pos_iff.mpr h)

lemma toInt_clamp {lo hi : Int32} (h : lo ≤ hi) (value : Int32) :
    (clamp lo hi value).toInt = max lo.toInt (min hi.toInt value.toInt) := by
  have hle := Int32.le_iff_toInt_le.mp h
  simp only [clamp, Int32.lt_iff_toInt_lt]
  split_ifs <;> omega

/-- What a call is answered when a number of values have been taken before it. -/
inductive Replies (values : List Int32) (taken : ℕ) : Call → Request → Prop where
  | word {due : Int32} (hdue : values[taken % values.length]? = some due) :
    Replies values taken .word (.word due.toUInt32)
  | int {lo hi due answer : Int32} (h : lo < hi)
      (hdue : values[taken % values.length]? = some due)
      (hanswer : answer.toInt = max lo.toInt (min hi.toInt due.toInt)) :
    Replies values taken (.int lo hi) (.int lo hi answer)
  | bound {lo hi : Int32} (h : hi ≤ lo) : Replies values taken (.int lo hi) (.int lo hi lo)
  | emptyWord (hnil : values = []) : Replies values taken .word (.word 0)
  | emptyInt {lo hi : Int32} (hnil : values = []) (h : lo < hi) :
    Replies values taken (.int lo hi) (.int lo hi lo)

/-! ### Calls that check every operation -/

/-- Ways in which an operation could break down. -/
inductive Fault where
  | zeroDivisor
  | outOfBounds
  | overflow
  | emptyRange
  deriving DecidableEq, Repr

namespace Checked

def remainder (n divisor : ℕ) : Except Fault ℕ :=
  if divisor = 0 then .error .zeroDivisor else .ok (n % divisor)

def element (values : List Int32) (place : ℕ) : Except Fault Int32 :=
  match values[place]? with
  | some value => .ok value
  | none => .error .outOfBounds

def successor (n : UInt64) : Except Fault UInt64 :=
  if n.toNat + 1 < 2 ^ 64 then .ok (n + 1) else .error .overflow

def clamp (lo hi value : Int32) : Except Fault Int32 :=
  if lo ≤ hi then .ok (Script.clamp lo hi value) else .error .emptyRange

/-- Takes the value that is due, if there are any values. -/
def take? (s : Script) : Except Fault (Option (Int32 × Script)) := do
  let place ← remainder s.cursor.toNat (max s.values.length 1)
  if s.values = [] then
    pure none
  else
    let value ← element s.values place
    let cursor ← successor s.cursor
    pure (some (value, ⟨s.values, cursor⟩))

def request (s : Script) : Call → Except Fault (Request × Script)
  | .word => do
    match ← take? s with
    | some (value, rest) => pure (.word value.toUInt32, rest)
    | none => pure (.word 0, s)
  | .int lo hi =>
    if hi ≤ lo then
      pure (.int lo hi lo, s)
    else do
      match ← take? s with
      | some (value, rest) => do
        let answer ← clamp lo hi value
        pure (.int lo hi answer, rest)
      | none => pure (.int lo hi lo, s)

def requests (s : Script) : List Call → Except Fault (List Request × Script)
  | [] => pure ([], s)
  | call :: calls => do
    let (first, t) ← request s call
    let (others, u) ← requests t calls
    pure (first :: others, u)

/-- Nothing can break down while the count of the values taken fits its word. -/
lemma take?_eq_ok {s : Script} (h : s.cursor.toNat + 1 < 2 ^ 64) : take? s = .ok s.take? := by
  have hdivisor : max s.values.length 1 ≠ 0 := by omega
  rw [take?, remainder, if_neg hdivisor, Script.take?, position]
  by_cases hnil : s.values = []
  · rw [hnil]
    rfl
  · have hplace : s.cursor.toNat % max s.values.length 1 < s.values.length := by
      have hpos := List.length_pos_iff.mpr hnil
      rw [Nat.max_eq_left hpos]
      exact Nat.mod_lt _ hpos
    simp only [bind, Except.bind, hnil, if_false, element, List.getElem?_eq_getElem hplace,
      successor, h, if_true, pure, Except.pure, Option.map_some]

lemma request_eq_ok {s : Script} (h : s.cursor.toNat + 1 < 2 ^ 64) (call : Call) :
    ∃ r, Draw.request call s = some r ∧ request s call = .ok r := by
  cases call with
  | word =>
    refine ⟨(.word s.next.1, s.next.2), rfl, ?_⟩
    rw [request, take?_eq_ok h, next]
    cases s.take? <;> rfl
  | int lo hi =>
    refine ⟨(.int lo hi (int lo hi s).1, (int lo hi s).2), rfl, ?_⟩
    rw [request, take?_eq_ok h, int]
    by_cases hle : hi ≤ lo
    · rw [if_pos hle, if_pos hle]
      rfl
    · have hbounds : lo ≤ hi := Int32.le_of_lt (Int32.not_le.mp hle)
      rw [if_neg hle, if_neg hle]
      cases s.take? with
      | none => rfl
      | some r =>
        simp only [bind, Except.bind, clamp, hbounds, if_true]
        rfl

end Checked

/-! ### Runs -/

lemma take?_after {values : List Int32} (h : values ≠ []) {k : ℕ} (hk : k < 2 ^ 64) :
    ∃ due, values[k % values.length]? = some due ∧
      (after values k).take? = some (due, after values (k + 1)) := by
  have hplace := position_lt h k
  refine ⟨_, List.getElem?_eq_getElem hplace, ?_⟩
  rw [take?, position_after h hk]
  simp [after, h, hplace, UInt64.ofNat_add]

lemma request_word (s : Script) : Draw.request .word s = some (.word s.next.1, s.next.2) := rfl

lemma request_int (lo hi : Int32) (s : Script) :
    Draw.request (.int lo hi) s = some (.int lo hi (int lo hi s).1, (int lo hi s).2) := rfl

/-- One call is answered with the value that is due, and takes it if the call draws. -/
lemma request_after (values : List Int32) {k : ℕ} (hk : k < 2 ^ 64) (call : Call) :
    ∃ reply, Draw.request call (after values k) =
        some (reply, after values (k + if call.consumes then 1 else 0)) ∧
      Replies values k call reply := by
  cases call with
  | word =>
    rw [request_word, next, Call.consumes, if_pos rfl]
    by_cases hnil : values = []
    · subst hnil
      exact ⟨_, rfl, .emptyWord rfl⟩
    · obtain ⟨due, hdue, htake⟩ := take?_after hnil hk
      rw [htake]
      exact ⟨_, rfl, .word hdue⟩
  | int lo hi =>
    rw [request_int, int, Call.consumes]
    by_cases hle : hi ≤ lo
    · have hdraws : ¬ lo < hi := Int32.not_lt.mpr hle
      simp only [if_pos hle, hdraws, decide_false, Bool.false_eq_true, if_false, Nat.add_zero]
      exact ⟨_, rfl, .bound hle⟩
    · have hlt : lo < hi := Int32.not_le.mp hle
      simp only [if_neg hle, hlt, decide_true, if_true]
      by_cases hnil : values = []
      · subst hnil
        exact ⟨_, rfl, .emptyInt rfl hlt⟩
      · obtain ⟨due, hdue, htake⟩ := take?_after hnil hk
        rw [htake]
        exact ⟨_, rfl, .int hlt hdue (toInt_clamp (Int32.le_of_lt hlt) due)⟩

lemma toNat_cursor_after_le (values : List Int32) (k : ℕ) : (after values k).cursor.toNat ≤ k := by
  rw [after]
  split_ifs
  · exact Nat.zero_le k
  · rw [UInt64.toNat_ofNat']
    exact Nat.mod_le _ _

/-- Any number of calls are answered, each with the value that is due after those before it. -/
lemma requests_after (values : List Int32) (calls : List Call) {k : ℕ}
    (hk : k + calls.length < 2 ^ 64) :
    ∃ answered, Draw.requests calls (after values k) =
        some (answered, after values (k + calls.countP Call.consumes)) ∧
      Checked.requests (after values k) calls =
        .ok (answered, after values (k + calls.countP Call.consumes)) ∧
      answered.length = calls.length ∧
      ∀ i call, calls[i]? = some call → ∃ reply, answered[i]? = some reply ∧
        Replies values (k + (calls.take i).countP Call.consumes) call reply := by
  induction calls generalizing k with
  | nil => exact ⟨[], rfl, rfl, rfl, by simp⟩
  | cons call calls ih =>
    rw [List.length_cons] at hk
    obtain ⟨reply, hreply, hreplies⟩ := request_after values (k := k) (by omega) call
    have hle := toNat_cursor_after_le values k
    obtain ⟨r, hr, hchecked⟩ := Checked.request_eq_ok (s := after values k) (by omega) call
    rw [hreply] at hr
    cases hr
    have hstep : (if call.consumes then 1 else 0) ≤ 1 := by split_ifs <;> omega
    obtain ⟨answered, hrun, hrunChecked, hlength, hall⟩ :=
      ih (k := k + if call.consumes then 1 else 0) (by omega)
    have hcount : ∀ others : List Call, (call :: others).countP Call.consumes =
        (if call.consumes then 1 else 0) + others.countP Call.consumes := by
      intro others
      rw [List.countP_cons, Nat.add_comm]
    refine ⟨reply :: answered, ?_, ?_, by rw [List.length_cons, List.length_cons, hlength], ?_⟩
    · rw [hcount, ← Nat.add_assoc]
      exact Draw.requests_cons_of_eq hreply hrun
    · rw [hcount, ← Nat.add_assoc, Checked.requests, hchecked]
      simp only [bind, Except.bind, hrunChecked]
      rfl
    · intro i other hother
      cases i with
      | zero =>
        cases hother
        exact ⟨reply, rfl, hreplies⟩
      | succ i =>
        obtain ⟨later, hlater, hlaterReplies⟩ := hall i other hother
        refine ⟨later, hlater, ?_⟩
        rwa [List.take_succ_cons, hcount, ← Nat.add_assoc]

/-- A script is replayed in turn by every run of fewer than 2^64 calls: the value for a call is the
one at the number of calls before it that took one. Checking every operation on the way finds
nothing. -/
theorem values_replayed_in_turn (values : List Int32) (calls : List Call)
    (hshort : calls.length < 2 ^ 64) :
    ∃ answered, Draw.requests calls (ofList values) =
        some (answered, after values (calls.countP Call.consumes)) ∧
      Checked.requests (ofList values) calls =
        .ok (answered, after values (calls.countP Call.consumes)) ∧
      answered.length = calls.length ∧
      ∀ i call, calls[i]? = some call → ∃ reply, answered[i]? = some reply ∧
        Replies values ((calls.take i).countP Call.consumes) call reply := by
  have hrun := requests_after values calls (k := 0) (by omega)
  simpa only [after_zero, Nat.zero_add] using hrun

/-- A script of two values starts again at the third draw, and an empty range between takes none. -/
theorem two_values_start_again :
    [Call.int 8 18, .int 9 2, .word, .int 20 30].length < 2 ^ 64 ∧
    ∃ answered, Draw.requests [.int 8 18, .int 9 2, .word, .int 20 30] (ofList [15, -1]) =
        some (answered, after [15, -1] 3) ∧
      Checked.requests (ofList [15, -1]) [.int 8 18, .int 9 2, .word, .int 20 30] =
        .ok (answered, after [15, -1] 3) ∧
      answered = [.int 8 18 15, .int 9 2 9, .word 4294967295, .int 20 30 20] := by
  have hshort : [Call.int 8 18, .int 9 2, .word, .int 20 30].length < 2 ^ 64 := by decide
  obtain ⟨answered, hrun, hchecked, -⟩ := values_replayed_in_turn [15, -1] _ hshort
  refine ⟨hshort, answered, hrun, hchecked, ?_⟩
  have heval : Draw.requests [.int 8 18, .int 9 2, .word, .int 20 30] (ofList [15, -1]) =
      some ([.int 8 18 15, .int 9 2 9, .word 4294967295, .int 20 30 20],
        after [15, -1] 3) := by decide
  rw [heval] at hrun
  cases hrun
  rfl

end Script
end CharacterSheet
