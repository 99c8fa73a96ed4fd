import CharacterSheet.Proofs.Workshop.Effect
import Mathlib.Data.List.Induction

/-!
Where the characters of a workshop come from. What is found under a name after a run is what the
last action that stored there has left: either it built a character from a race and a sheet, or it
copied one, which comes from an earlier action in turn.
-/
namespace CharacterSheet.Workshop

variable {σ : Type} [RandomSource σ] {w first after : Workshop σ} {action : Action σ}
  {actions : List (Action σ)} {name : String}

/-! ### Runs -/

/-- The actions can be carried out in order, and lead to a state. -/
def Reaches (w : Workshop σ) (actions : List (Action σ)) (after : Workshop σ) : Prop :=
  ∃ replies, w.performAll actions = some (replies, after)

lemma reaches_nil_iff : w.Reaches [] after ↔ w = after := by
  constructor
  · rintro ⟨replies, h⟩
    cases h
    rfl
  · rintro rfl
    exact ⟨[], rfl⟩

lemma reaches_cons_iff :
    w.Reaches (action :: actions) after ↔
      ∃ reply mid, w.perform action = some (reply, mid) ∧ mid.Reaches actions after := by
  constructor
  · rintro ⟨replies, h⟩
    obtain ⟨⟨reply, mid⟩, hfirst, hrest⟩ := Option.bind_eq_some_iff.mp h
    obtain ⟨⟨others, last⟩, hothers, heq⟩ := Option.bind_eq_some_iff.mp hrest
    cases heq
    exact ⟨reply, mid, hfirst, others, hothers⟩
  · rintro ⟨reply, mid, hfirst, others, hothers⟩
    refine ⟨reply :: others, ?_⟩
    rw [performAll, hfirst]
    change (mid.performAll actions).bind _ = _
    rw [hothers]
    rfl

lemma reaches_append_iff {more : List (Action σ)} :
    w.Reaches (actions ++ more) after ↔ ∃ mid, w.Reaches actions mid ∧ mid.Reaches more after := by
  induction actions generalizing w with
  | nil => simp [reaches_nil_iff]
  | cons action actions ih =>
    simp only [List.cons_append, reaches_cons_iff, ih]
    constructor
    · rintro ⟨reply, next, hfirst, mid, hnext, hmid⟩
      exact ⟨mid, ⟨reply, next, hfirst, hnext⟩, hmid⟩
    · rintro ⟨mid, ⟨reply, next, hfirst, hnext⟩, hmid⟩
      exact ⟨reply, next, hfirst, mid, hnext, hmid⟩

lemma reaches_snoc_iff :
    w.Reaches (actions ++ [action]) after ↔
      ∃ reply mid, w.Reaches actions mid ∧ mid.perform action = some (reply, after) := by
  simp only [reaches_append_iff, reaches_cons_iff, reaches_nil_iff]
  constructor
  · rintro ⟨mid, hmid, reply, last, hlast, rfl⟩
    exact ⟨reply, mid, hmid, hlast⟩
  · rintro ⟨reply, mid, hmid, hlast⟩
    exact ⟨mid, hmid, reply, after, hlast, rfl⟩

lemma Reaches.unique {other : Workshop σ} (h : w.Reaches actions after)
    (hother : w.Reaches actions other) : after = other := by
  obtain ⟨replies, h⟩ := h
  obtain ⟨others, hother⟩ := hother
  cases h.symm.trans hother
  rfl

/-! ### The last action that stored under a name -/

/-- A run in which no action stores a character under a name: those that would are refused. -/
inductive Passes (name : String) : Workshop σ → List (Action σ) → Workshop σ → Prop where
  | nil (w : Workshop σ) : Passes name w [] w
  | cons {w mid after : Workshop σ} {action : Action σ} {actions : List (Action σ)} {reply : Reply}
    (hstep : w.perform action = some (reply, mid))
    (hspares : action.heroTarget? = some name → reply.isRefusal)
    (hrest : Passes name mid actions after) : Passes name w (action :: actions) after

namespace Passes

lemma reaches (h : Passes name w actions after) : w.Reaches actions after := by
  induction h with
  | nil w => exact reaches_nil_iff.mpr rfl
  | cons hstep _ _ ih => exact reaches_cons_iff.mpr ⟨_, _, hstep, ih⟩

lemma snoc {reply : Reply} {last : Workshop σ} (h : Passes name w actions after)
    (hstep : after.perform action = some (reply, last))
    (hspares : action.heroTarget? = some name → reply.isRefusal) :
    Passes name w (actions ++ [action]) last := by
  induction h with
  | nil w => exact .cons hstep hspares (.nil last)
  | cons hfirst hkept _ ih => exact .cons hfirst hkept (ih hstep)

lemma get?_heroes (h : Passes name w actions after) :
    after.heroes.get? name = w.heroes.get? name := by
  induction h with
  | nil w => rfl
  | cons hstep hspares _ ih =>
    exact ih.trans ((effect_of_perform hstep).get?_heroes_of_spares hspares)

end Passes

/-- A run of actions that name other places passes a name by. -/
lemma Reaches.passes (h : w.Reaches actions after)
    (hname : ∀ action ∈ actions, action.heroTarget? ≠ some name) :
    Passes name w actions after := by
  induction actions generalizing w with
  | nil =>
    rw [reaches_nil_iff] at h
    exact h ▸ .nil w
  | cons action actions ih =>
    obtain ⟨reply, mid, hfirst, hrest⟩ := reaches_cons_iff.mp h
    obtain ⟨hother, hothers⟩ := List.forall_mem_cons.mp hname
    exact .cons hfirst (fun hsame => absurd hsame hother) (ih hrest hothers)

/-- In a run, the last action that stored a character under a name, with the actions before it and
the state that it found. -/
structure LastStores (first : Workshop σ) (actions : List (Action σ)) (name : String)
    (before : List (Action σ)) (mid : Workshop σ) (action : Action σ) : Prop where
  reached : first.Reaches before mid
  named : action.heroTarget? = some name
  stored : ∃ reply next later last, mid.perform action = some (reply, next) ∧
    reply.isRefusal = false ∧ Passes name next later last ∧ actions = before ++ action :: later

namespace LastStores

variable {before : List (Action σ)} {mid : Workshop σ}

/-- An action that is carried out at the end of a run is the last one. -/
lemma of_step {reply : Reply} (h : first.Reaches actions mid)
    (hnamed : action.heroTarget? = some name) (hstep : mid.perform action = some (reply, after))
    (hcarried : reply.isRefusal = false) :
    first.LastStores (actions ++ [action]) name actions mid action :=
  ⟨h, hnamed, reply, after, [], after, hstep, hcarried, .nil after, rfl⟩

/-- The actions after it lead to the end of the run. -/
lemma exists_passes (h : first.LastStores actions name before mid action)
    (hrun : first.Reaches actions w) : ∃ reply next later,
      mid.perform action = some (reply, next) ∧ reply.isRefusal = false ∧
      Passes name next later w ∧ actions = before ++ action :: later := by
  obtain ⟨reply, next, later, last, hstored, hcarried, hpasses, rfl⟩ := h.stored
  have hlast : first.Reaches (before ++ action :: later) last :=
    reaches_append_iff.mpr ⟨mid, h.reached, reaches_cons_iff.mpr ⟨_, _, hstored, hpasses.reaches⟩⟩
  obtain rfl := hlast.unique hrun
  exact ⟨reply, next, later, hstored, hcarried, hpasses, rfl⟩

/-- It stays the last one until another action stores under the name. -/
lemma snoc {later : Action σ} {reply : Reply} (h : first.LastStores actions name before mid action)
    (hrun : first.Reaches actions w) (hstep : w.perform later = some (reply, after))
    (hspares : later.heroTarget? = some name → reply.isRefusal) :
    first.LastStores (actions ++ [later]) name before mid action := by
  obtain ⟨stored, next, rest, hstored, hcarried, hpasses, rfl⟩ := h.exists_passes hrun
  refine ⟨h.reached, h.named, stored, next, rest ++ [later], after, hstored, hcarried,
    hpasses.snoc hstep hspares, ?_⟩
  rw [List.append_assoc, List.cons_append]

/-- What it stored is found at the end of the run. -/
lemma exists_stores (h : first.LastStores actions name before mid action)
    (hrun : first.Reaches actions w) :
    ∃ hero, mid.StoresHero action name hero ∧ w.heroes.get? name = some hero := by
  obtain ⟨reply, next, later, hstored, hcarried, hpasses, -⟩ := h.exists_passes hrun
  obtain ⟨hero, hstores, hget⟩ := (effect_of_perform hstored).exists_stores h.named hcarried
  exact ⟨hero, hstores, hpasses.get?_heroes.trans hget⟩

end LastStores

/-! ### Origins -/

/-- The race and the sheet that the character under a name was built from in a run: by the last
action that stored there, or, if that was a copy, by what the one copied was built from. -/
inductive BuiltFrom (first : Workshop σ) : List (Action σ) → String → Race → Sheet → Prop where
  | built {actions before : List (Action σ)} {name : String} {mid : Workshop σ} {action : Action σ}
    {race : Race} {base : Sheet} (hlast : first.LastStores actions name before mid action)
    (hbuilds : mid.Builds action name race base) : BuiltFrom first actions name race base
  | copied {actions before : List (Action σ)} {name origin : String} {mid : Workshop σ}
    {race : Race} {base : Sheet}
    (hlast : first.LastStores actions name before mid (.copyHero name origin))
    (horigin : BuiltFrom first before origin race base) : BuiltFrom first actions name race base

variable {race : Race} {base : Sheet}

lemma BuiltFrom.snoc {later : Action σ} {reply : Reply} (h : first.BuiltFrom actions name race base)
    (hrun : first.Reaches actions w) (hstep : w.perform later = some (reply, after))
    (hspares : later.heroTarget? = some name → reply.isRefusal) :
    first.BuiltFrom (actions ++ [later]) name race base := by
  cases h with
  | built hlast hbuilds => exact .built (hlast.snoc hrun hstep hspares) hbuilds
  | copied hlast horigin => exact .copied (hlast.snoc hrun hstep hspares) horigin

/-- What a name was built from is found under it, composed. -/
lemma BuiltFrom.get?_heroes (h : first.BuiltFrom actions name race base)
    (hrun : first.Reaches actions w) : w.heroes.get? name = some (.ofParts race base) := by
  induction h generalizing w with
  | built hlast hbuilds =>
    obtain ⟨hero, hstores, hget⟩ := hlast.exists_stores hrun
    cases hstores with
    | built hbuilds' =>
      obtain ⟨rfl, rfl⟩ := hbuilds.unique hbuilds'
      exact hget
    | copied => cases hbuilds
  | copied hlast horigin ih =>
    obtain ⟨hero, hstores, hget⟩ := hlast.exists_stores hrun
    cases hstores with
    | built hbuilds => cases hbuilds
    | copied hhero =>
      cases hhero.symm.trans (ih hlast.reached)
      exact hget

/-- Every character found after a run that starts with none was built in it. -/
lemma Reaches.builtFrom {hero : Character} (hrun : first.Reaches actions w)
    (hfirst : ∀ name, first.heroes.get? name = none) (hfound : w.heroes.get? name = some hero) :
    first.BuiltFrom actions name hero.race hero.base := by
  induction actions using List.reverseRecOn generalizing w name hero with
  | nil =>
    rw [← reaches_nil_iff.mp hrun, hfirst] at hfound
    cases hfound
  | append_singleton actions action ih =>
    obtain ⟨reply, mid, hmid, hstep⟩ := reaches_snoc_iff.mp hrun
    rcases (effect_of_perform hstep).get?_heroes name with
      ⟨hspares, hsame⟩ | ⟨hcarried, stored, hstores, hget⟩
    · exact (ih hmid (hsame.symm.trans hfound)).snoc hmid hstep hspares
    · cases hget.symm.trans hfound
      have hlast := LastStores.of_step hmid hstores.heroTarget?_eq hstep hcarried
      cases hstores with
      | built hbuilds => exact .built hlast hbuilds
      | copied hhero => exact .copied hlast (ih hmid hhero)

end CharacterSheet.Workshop
