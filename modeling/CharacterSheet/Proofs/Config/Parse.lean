import CharacterSheet.Proofs.Config.Decoding

/-!
The three answers to a text of a configuration: it is malformed, its range is in the wrong order, or
it states a valid configuration. All of them are settled by the slots of the document.
-/
namespace CharacterSheet.Config

open Toml (Value Entries)

variable {text detail : String} {entries : Entries} {config : Config}

lemma Bounds.unique {roll value other : Value} {slot : Slot} (h : roll.WellKeyed)
    (hvalue : Bounds roll slot value) (hother : Bounds roll slot other) : value = other := by
  cases hvalue <;> cases hother
  case min.min hvalue hother => exact h.distinctKeys.eq_of_mem hvalue hother
  case max.max hvalue hother => exact h.distinctKeys.eq_of_mem hvalue hother
  all_goals rfl

/-- A slot is filled at most once. -/
lemma Fills.unique {value other : Value} {slot : Slot} (h : (Value.table entries).WellKeyed)
    (hvalue : Fills entries slot value) (hother : Fills entries slot other) : value = other := by
  cases hvalue with
  | bonus hvalue => exact h.distinctKeys.eq_of_mem hvalue (fills_bonus_iff.mp hother)
  | bound hroll hvalue =>
    have hslot : slot ≠ .bonus := by
      rintro rfl
      cases hvalue
    have hbounds := (fills_iff_bounds h.distinctKeys hroll hslot).mp hother
    exact hvalue.unique (h.of_mem hroll) hbounds

/-- A byte for a slot that is filled with bytes only. -/
lemma exists_settles {given : Value → Prop} (standard : UInt8)
    (hunique : ∀ value other, given value → given other → value = other)
    (hbytes : ∀ value, given value → IsByte value) :
    ∃ byte, Settles given standard byte := by
  by_cases hgiven : ∃ value, given value
  · obtain ⟨value, hvalue⟩ := hgiven
    obtain ⟨byte, rfl⟩ := hbytes value hvalue
    refine ⟨byte, fun other hother => hunique other _ hother hvalue, fun habsent => ?_⟩
    exact absurd hvalue (habsent _)
  · rw [not_exists] at hgiven
    exact ⟨standard, fun value hvalue => absurd hvalue (hgiven value), fun _ => rfl⟩

/-- A document of the right shape, with bytes in its slots, states a configuration. -/
lemma exists_states (h : (Value.table entries).WellKeyed) (hheld : Held entries)
    (hshaped : Shaped entries)
    (hbytes : ∀ slot value, Fills entries slot value → IsByte value) :
    ∃ config, States entries config := by
  have hslot : ∀ slot : Slot, ∃ byte, Settles (Fills entries slot) slot.standard byte := fun slot =>
    exists_settles slot.standard (fun _ _ => Fills.unique h) (hbytes slot)
  obtain ⟨min, hmin⟩ := hslot .min
  obtain ⟨max, hmax⟩ := hslot .max
  obtain ⟨bonus, hbonus⟩ := hslot .bonus
  refine ⟨⟨⟨min, max⟩, bonus⟩, hheld, hshaped, fun slot => ?_⟩
  cases slot with
  | min => exact hmin
  | max => exact hmax
  | bonus => exact hbonus

lemma states_congr {other : Entries} (hheld : Held entries ↔ Held other)
    (hshaped : Shaped entries ↔ Shaped other)
    (hfills : ∀ slot value, Fills entries slot value ↔ Fills other slot value) :
    States entries config ↔ States other config := by
  have hslots : Fills entries = Fills other := by
    funext slot value
    exact propext (hfills slot value)
  constructor
  · rintro ⟨held, shaped, slots⟩
    exact ⟨hheld.mp held, hshaped.mp shaped, hslots ▸ slots⟩
  · rintro ⟨held, shaped, slots⟩
    exact ⟨hheld.mpr held, hshaped.mpr shaped, hslots ▸ slots⟩

/-- A document states nothing if a number cannot be held, the range has another shape, or a slot is
filled with anything but a byte. -/
lemma ofEntries?_eq_none_iff (h : (Value.table entries).WellKeyed) :
    ofEntries? entries = none ↔ ¬ Held entries ∨ ¬ Shaped entries ∨
      ∃ slot value, Fills entries slot value ∧ ¬ IsByte value := by
  constructor
  · intro hnone
    by_contra hsound
    simp only [not_or, not_not, not_exists, not_and] at hsound
    obtain ⟨hheld, hshaped, hbytes⟩ := hsound
    obtain ⟨config, hstates⟩ := exists_states h hheld hshaped hbytes
    cases hnone.symm.trans ((ofEntries?_eq_some_iff h).mpr hstates)
  · intro hfault
    by_contra hsome
    obtain ⟨config, hconfig⟩ := Option.ne_none_iff_exists'.mp hsome
    obtain ⟨hheld, hshaped, hslots⟩ := (ofEntries?_eq_some_iff h).mp hconfig
    rcases hfault with hfault | hfault | ⟨slot, value, hfills, hvalue⟩
    · exact hfault hheld
    · exact hfault hshaped
    · exact hvalue ⟨_, (hslots slot).filled value hfills⟩

/-! The answers to a text. -/

/-- The configuration that a text states, whether it is valid or not. -/
def stated? (text : String) : Option Config := (Entries.read? text).bind ofEntries?

lemma stated?_eq_some_iff :
    stated? text = some config ↔
      ∃ entries, Entries.read? text = some entries ∧ States entries config := by
  rw [stated?, Option.bind_eq_some_iff]
  constructor
  · rintro ⟨entries, hread, heq⟩
    exact ⟨entries, hread, (ofEntries?_eq_some_iff (Toml.wellKeyed_of_read? hread)).mp heq⟩
  · rintro ⟨entries, hread, hstates⟩
    exact ⟨entries, hread, (ofEntries?_eq_some_iff (Toml.wellKeyed_of_read? hread)).mpr hstates⟩

lemma stated?_eq_none_iff :
    stated? text = none ↔
      Entries.read? text = none ∨ ∃ entries, Entries.read? text = some entries ∧
        (¬ Held entries ∨ ¬ Shaped entries ∨
          ∃ slot value, Fills entries slot value ∧ ¬ IsByte value) := by
  rw [stated?]
  cases hread : Entries.read? text with
  | none => exact ⟨fun _ => .inl rfl, fun _ => rfl⟩
  | some entries =>
    rw [Option.bind_some, ofEntries?_eq_none_iff (Toml.wellKeyed_of_read? hread)]
    constructor
    · intro h
      exact .inr ⟨entries, rfl, h⟩
    · rintro (⟨⟨⟩⟩ | ⟨_, ⟨⟩, h⟩)
      exact h

/-- Documents with the same slots state the same, whatever else is in them. -/
lemma stated?_congr {other : String} {after : Entries} (hread : Entries.read? text = some entries)
    (hother : Entries.read? other = some after) (hheld : Held entries ↔ Held after)
    (hshaped : Shaped entries ↔ Shaped after)
    (hfills : ∀ slot value, Fills entries slot value ↔ Fills after slot value) :
    stated? other = stated? text := by
  rw [stated?, stated?, hread, hother, Option.bind_some, Option.bind_some]
  ext config
  rw [ofEntries?_eq_some_iff (Toml.wellKeyed_of_read? hread),
    ofEntries?_eq_some_iff (Toml.wellKeyed_of_read? hother)]
  exact (states_congr hheld hshaped hfills).symm

lemma parse_eq (text detail : String) : parse text detail =
    match stated? text with
    | none => .error (.malformed detail)
    | some config =>
      if config.scoreRoll.max < config.scoreRoll.min then
        .error (.invalid (.invalidScoreRange config.scoreRoll))
      else
        .ok config := by
  rw [parse, stated?]
  cases (Entries.read? text).bind ofEntries? with
  | none => rfl
  | some config =>
    dsimp only [validate]
    split_ifs <;> rfl

lemma parse_malformed_iff :
    parse text detail = .error (.malformed detail) ↔ stated? text = none := by
  rw [parse_eq]
  cases stated? text with
  | none => exact ⟨fun _ => rfl, fun _ => rfl⟩
  | some config =>
    dsimp only
    constructor
    · intro h
      split at h <;> cases h
    · intro h
      cases h

lemma parse_invalid_iff {range : ScoreRange} :
    parse text detail = .error (.invalid (.invalidScoreRange range)) ↔
      ∃ config, stated? text = some config ∧ config.scoreRoll = range ∧ range.max < range.min := by
  rw [parse_eq]
  cases stated? text with
  | none => simp
  | some config =>
    dsimp only
    split_ifs with horder
    · constructor
      · intro h
        cases h
        exact ⟨config, rfl, rfl, horder⟩
      · rintro ⟨_, ⟨⟩, rfl, -⟩
        rfl
    · constructor
      · intro h
        cases h
      · rintro ⟨_, ⟨⟩, rfl, h⟩
        exact absurd h horder

lemma parse_ok_iff :
    parse text detail = .ok config ↔
      stated? text = some config ∧ config.scoreRoll.min ≤ config.scoreRoll.max := by
  rw [parse_eq]
  cases stated? text with
  | none => simp
  | some stated =>
    dsimp only
    split_ifs with horder
    · constructor
      · intro h
        cases h
      · rintro ⟨⟨⟩, h⟩
        exact absurd horder (UInt8.not_lt.mpr h)
    · constructor
      · intro h
        cases h
        exact ⟨rfl, UInt8.not_lt.mp horder⟩
      · rintro ⟨⟨⟩, -⟩
        rfl

/-- Every text gives one of the three answers, by its slots alone: what is beside them may change as
long as its numbers can be held. -/
theorem parse_by_slots (text detail : String) :
    (parse text detail = .error (.malformed detail) ↔
      Entries.read? text = none ∨ ∃ entries, Entries.read? text = some entries ∧
        (¬ Held entries ∨ ¬ Shaped entries ∨
          ∃ slot value, Fills entries slot value ∧ ¬ IsByte value)) ∧
    (∀ range, parse text detail = .error (.invalid (.invalidScoreRange range)) ↔
      ∃ entries config, Entries.read? text = some entries ∧ States entries config ∧
        config.scoreRoll = range ∧ range.max < range.min) ∧
    (∀ config, parse text detail = .ok config ↔
      ∃ entries, Entries.read? text = some entries ∧ States entries config ∧
        config.scoreRoll.min ≤ config.scoreRoll.max) ∧
    ∀ entries other after, Entries.read? text = some entries →
      Entries.read? other = some after → (Held entries ↔ Held after) →
      (Shaped entries ↔ Shaped after) →
      (∀ slot value, Fills entries slot value ↔ Fills after slot value) →
      parse other detail = parse text detail := by
  refine ⟨?_, fun range => ?_, fun config => ?_, ?_⟩
  · rw [parse_malformed_iff, stated?_eq_none_iff]
  · rw [parse_invalid_iff]
    constructor
    · rintro ⟨config, hstated, h⟩
      obtain ⟨entries, hread, hstates⟩ := stated?_eq_some_iff.mp hstated
      exact ⟨entries, config, hread, hstates, h⟩
    · rintro ⟨entries, config, hread, hstates, h⟩
      exact ⟨config, stated?_eq_some_iff.mpr ⟨entries, hread, hstates⟩, h⟩
  · rw [parse_ok_iff, stated?_eq_some_iff]
    constructor
    · rintro ⟨⟨entries, hread, hstates⟩, h⟩
      exact ⟨entries, hread, hstates, h⟩
    · rintro ⟨entries, hread, hstates, h⟩
      exact ⟨⟨entries, hread, hstates⟩, h⟩
  · intro entries other after hread hother hheld hshaped hfills
    rw [parse_eq, parse_eq, stated?_congr hread hother hheld hshaped hfills]

/-- A time of day stands for the standard range, though it is neither a table nor an array. -/
theorem moment_states_standard_range :
    ∃ text entries roll, Entries.read? text = some entries ∧ ("score_roll", roll) ∈ entries ∧
      roll.isLeaf ∧ ∀ detail, parse text detail = .ok standard := by
  have hstated : stated? "score_roll = 07:32" = some standard := by decide +kernel
  have hfound : (((Entries.read? "score_roll = 07:32").bind (·.lookup "score_roll")).filter
      Value.isLeaf).isSome := by decide +kernel
  obtain ⟨roll, hfound⟩ := Option.isSome_iff_exists.mp hfound
  obtain ⟨hroll, hleaf⟩ := Option.filter_eq_some_iff.mp hfound
  obtain ⟨entries, hread, hlookup⟩ := Option.bind_eq_some_iff.mp hroll
  exact ⟨_, entries, roll, hread, Toml.mem_of_lookup hlookup, hleaf,
    fun detail => parse_ok_iff.mpr ⟨hstated, by decide⟩⟩

end CharacterSheet.Config
