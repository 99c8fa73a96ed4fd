import CharacterSheet.Proofs.Toml.Keys

/-!
The table that a text is read as has distinct keys, at any depth. Scalars hold no tables, the items
of an array are read one by one, and an inline table is built by assignments, as a document is.
-/
namespace CharacterSheet.Toml

/-- All that a reader gives has a property. -/
def Gives {α : Type} (read : List Char → Option (α × List Char)) (P : α → Prop) : Prop :=
  ∀ cs a rest, read cs = some (a, rest) → P a

namespace Number

lemma gives_scanDecimal : Gives scanDecimal (·.isLeaf) := by
  intro cs value rest h
  obtain ⟨⟨whole, cs⟩, -, hrest⟩ := Option.bind_eq_some_iff.mp h
  dsimp only at hrest
  split at hrest
  · cases hrest
  · split at hrest
    · cases hrest
      rfl
    · split at hrest <;> cases hrest <;> rfl

lemma gives_scanSpecial : Gives scanSpecial (·.isLeaf) := by
  intro cs value rest h
  rw [scanSpecial] at h
  dsimp only at h
  split at h <;> cases h <;> rfl

lemma gives_scanBase {base : Nat} {digit? : Char → Option Nat} :
    Gives (scanBase base digit?) (·.isLeaf) := by
  intro cs value rest h
  obtain ⟨⟨ds, after⟩, -, heq⟩ := Option.bind_eq_some_iff.mp h
  cases heq
  rfl

lemma gives_scanNumber : Gives scanNumber (·.isLeaf) := by
  intro cs value rest h
  rw [scanNumber.eq_def] at h
  split at h
  · exact gives_scanBase _ _ _ h
  · exact gives_scanBase _ _ _ h
  · exact gives_scanBase _ _ _ h
  · rcases Option.or_eq_some_iff.mp h with hspecial | ⟨-, hdecimal⟩
    · exact gives_scanSpecial _ _ _ hspecial
    · exact gives_scanDecimal _ _ _ hdecimal

lemma gives_scan : Gives scan (·.isLeaf) := by
  intro cs value rest h
  rcases Option.or_eq_some_iff.mp h with hnumber | ⟨-, houtline⟩
  · exact gives_scanNumber _ _ _ (Option.filter_eq_some_iff.mp hnumber).1
  · rw [scanOutline] at houtline
    split at houtline <;> cases houtline
    rfl

end Number

lemma gives_scanBoolean : Gives scanBoolean (·.isLeaf) := by
  intro cs value rest h
  rw [scanBoolean.eq_def] at h
  split at h <;> cases h <;> rfl

lemma Gives.or {α : Type} {read other : List Char → Option (α × List Char)} {P : α → Prop}
    (hread : Gives read P) (hother : Gives other P) :
    Gives (fun cs => (read cs).or (other cs)) P := by
  intro cs a rest h
  rcases Option.or_eq_some_iff.mp h with hfirst | ⟨-, hsecond⟩
  · exact hread cs a rest hfirst
  · exact hother cs a rest hsecond

lemma gives_map {α : Type} (read : List Char → Option (α × List Char)) (f : α → Value)
    (hf : ∀ a, (f a).isLeaf) :
    Gives (fun cs => (read cs).map fun (a, rest) => (f a, rest)) (·.isLeaf) := by
  intro cs value rest h
  obtain ⟨⟨a, after⟩, -, heq⟩ := Option.map_eq_some_iff.mp h
  cases heq
  exact hf a

lemma gives_scanScalar : Gives scanScalar (·.isLeaf) := by
  intro cs value rest h
  have hquoted := gives_map Quoted.scan (fun s => .string (String.ofList s)) fun _ => rfl
  have hmoment := gives_map Moment.scan .moment fun _ => rfl
  rw [scanScalar.eq_def] at h
  split at h
  · exact hquoted _ _ _ h
  · exact hquoted _ _ _ h
  · exact (gives_scanBoolean.or (hmoment.or Number.gives_scan)) _ _ _ h

lemma gives_scanItems {item : List Char → Option (Value × List Char)} {P : Value → Prop}
    (hitem : Gives item P) (steps : Nat) :
    Gives (scanItems item steps) fun items => ∀ v ∈ items, P v := by
  induction steps with
  | zero =>
    intro cs items rest h
    cases h
  | succ steps ih =>
    intro cs items rest h
    rw [scanItems] at h
    obtain ⟨start, -, h⟩ := Option.bind_eq_some_iff.mp h
    split at h
    · cases h
      exact List.forall_mem_nil _
    · obtain ⟨⟨value, afterValue⟩, hvalue, h⟩ := Option.bind_eq_some_iff.mp h
      obtain ⟨next, -, h⟩ := Option.bind_eq_some_iff.mp h
      have hP := hitem _ _ _ hvalue
      split at h
      · obtain ⟨⟨values, afterValues⟩, hvalues, h⟩ := Option.bind_eq_some_iff.mp h
        cases h
        exact List.forall_mem_cons.mpr ⟨hP, ih _ _ _ hvalues⟩
      · cases h
        exact List.forall_mem_singleton.mpr hP
      · cases h

lemma gives_scanInline {item : List Char → Option (Value × List Char)} {P : Value → Prop}
    (hitem : Gives item P) (steps : Nat) :
    Gives (scanInline item steps) fun assignments => ∀ a ∈ assignments, P a.2.2 := by
  induction steps with
  | zero =>
    intro cs assignments rest h
    cases h
  | succ steps ih =>
    intro cs assignments rest h
    rw [scanInline] at h
    obtain ⟨start, -, h⟩ := Option.bind_eq_some_iff.mp h
    split at h
    · cases h
      exact List.forall_mem_nil _
    · obtain ⟨⟨path, afterPath⟩, -, h⟩ := Option.bind_eq_some_iff.mp h
      obtain ⟨sign, -, h⟩ := Option.bind_eq_some_iff.mp h
      split at h
      · obtain ⟨start, -, h⟩ := Option.bind_eq_some_iff.mp h
        obtain ⟨⟨value, afterValue⟩, hvalue, h⟩ := Option.bind_eq_some_iff.mp h
        obtain ⟨next, -, h⟩ := Option.bind_eq_some_iff.mp h
        have hP := hitem _ _ _ hvalue
        split at h
        · obtain ⟨⟨others, afterOthers⟩, hothers, h⟩ := Option.bind_eq_some_iff.mp h
          cases h
          exact List.forall_mem_cons.mpr ⟨hP, ih _ _ _ hothers⟩
        · cases h
          exact List.forall_mem_singleton.mpr hP
        · cases h
      · cases h

/-- Every value that is read has tables with distinct keys only. -/
theorem gives_scanValue (depth : Nat) : Gives (scanValue depth) Value.WellKeyed := by
  have hscalar : Gives scanScalar Value.WellKeyed := fun cs value rest h =>
    .leaf (gives_scanScalar cs value rest h)
  induction depth with
  | zero =>
    intro cs value rest h
    rw [scanValue.eq_def] at h
    dsimp only at h
    split at h
    · cases h
    · cases h
    · exact hscalar _ _ _ h
  | succ depth ih =>
    intro cs value rest h
    rw [scanValue.eq_def] at h
    dsimp only at h
    split at h
    · obtain ⟨⟨items, after⟩, hitems, h⟩ := Option.map_eq_some_iff.mp h
      cases h
      exact .array (gives_scanItems ih _ _ _ _ hitems)
    · obtain ⟨⟨assignments, after⟩, hassignments, h⟩ := Option.bind_eq_some_iff.mp h
      obtain ⟨entries, hentries, h⟩ := Option.bind_eq_some_iff.mp h
      cases h
      exact wellKeyed_ofAssignments? (gives_scanInline ih _ _ _ _ hassignments) hentries
    · exact hscalar _ _ _ h

namespace Statement

lemma gives_scanAssignment : Gives scanAssignment WellKeyed := by
  intro cs statement rest h
  obtain ⟨⟨path, afterPath⟩, -, h⟩ := Option.bind_eq_some_iff.mp h
  dsimp only at h
  split at h
  · obtain ⟨⟨value, afterValue⟩, hvalue, h⟩ := Option.bind_eq_some_iff.mp h
    cases h
    exact gives_scanValue _ _ _ _ hvalue
  · cases h

lemma gives_scan : Gives scan WellKeyed := by
  intro cs statement rest h
  rw [scan.eq_def] at h
  split at h
  · obtain ⟨⟨path, afterPath⟩, -, h⟩ := Option.bind_eq_some_iff.mp h
    dsimp only at h
    split at h <;> cases h
    trivial
  · obtain ⟨⟨path, afterPath⟩, -, h⟩ := Option.bind_eq_some_iff.mp h
    dsimp only at h
    split at h <;> cases h
    trivial
  · exact gives_scanAssignment _ _ _ h

lemma wellKeyed_of_scanWithin {steps : Nat} {cs : List Char} {statements : List Statement}
    (h : scanWithin steps cs = some statements) :
    ∀ statement ∈ statements, statement.WellKeyed := by
  induction steps generalizing cs statements with
  | zero =>
    cases cs <;> cases h
    exact List.forall_mem_nil _
  | succ steps ih =>
    cases cs with
    | nil =>
      cases h
      exact List.forall_mem_nil _
    | cons c cs =>
      rw [scanWithin] at h
      split at h
      · exact ih h
      · obtain ⟨⟨statement, after⟩, hstatement, h⟩ := Option.bind_eq_some_iff.mp h
        obtain ⟨next, -, h⟩ := Option.bind_eq_some_iff.mp h
        obtain ⟨others, hothers, h⟩ := Option.bind_eq_some_iff.mp h
        cases h
        exact List.forall_mem_cons.mpr ⟨gives_scan _ _ _ hstatement, ih hothers⟩

end Statement

/-- Every table of a document has distinct keys. -/
theorem wellKeyed_of_read? {text : String} {entries : Entries}
    (h : Entries.read? text = some entries) : (Value.table entries).WellKeyed := by
  obtain ⟨statements, hstatements, h⟩ := Option.bind_eq_some_iff.mp h
  exact wellKeyed_ofStatements? (Statement.wellKeyed_of_scanWithin hstatements) h

end CharacterSheet.Toml
