import CharacterSheet.Toml.Document
import Mathlib.Data.List.Nodup

/-!
Every table of a document has distinct keys, at any depth. A table under construction only gets keys
that it does not have, and a node is replaced in its place; the values of a text are read into
tables of this kind to begin with.
-/
namespace CharacterSheet.Toml

section DistinctKeys

variable {α : Type} {entries : List (String × α)} {key : String} {a : α}

/-- No key stands twice in a list of entries. -/
def DistinctKeys (entries : List (String × α)) : Prop := (entries.map Prod.fst).Nodup

lemma mem_of_lookup (h : entries.lookup key = some a) : (key, a) ∈ entries := by
  obtain ⟨before, after, rfl, -⟩ := List.lookup_eq_some_iff.mp h
  exact List.mem_append_right before List.mem_cons_self

lemma lookup_eq_some_iff_mem (h : DistinctKeys entries) :
    entries.lookup key = some a ↔ (key, a) ∈ entries := by
  refine ⟨mem_of_lookup, fun hmem => ?_⟩
  obtain ⟨before, after, rfl⟩ := List.append_of_mem hmem
  have hkeys : ((before ++ (key, a) :: after).map Prod.fst).Nodup := h
  rw [List.map_append, List.nodup_append] at hkeys
  refine List.lookup_eq_some_iff.mpr ⟨before, after, rfl, fun entry hentry => ?_⟩
  have hne : entry.1 ≠ key := hkeys.2.2 _ (List.mem_map_of_mem hentry) _ List.mem_cons_self
  simpa using hne.symm

lemma DistinctKeys.eq_of_mem {b : α} (h : DistinctKeys entries) (ha : (key, a) ∈ entries)
    (hb : (key, b) ∈ entries) : a = b := by
  rw [← lookup_eq_some_iff_mem h] at ha hb
  exact Option.some_inj.mp (ha.symm.trans hb)

lemma lookup_eq_none_iff_not_mem : entries.lookup key = none ↔ ∀ a, (key, a) ∉ entries := by
  rw [List.lookup_eq_none_iff]
  constructor
  · intro h a hmem
    simpa using h _ hmem
  · rintro h ⟨other, a⟩ hmem
    have hne : key ≠ other := by
      rintro rfl
      exact h a hmem
    simpa using hne

end DistinctKeys

namespace Value

/-- A value that holds no other values. -/
def isLeaf : Value → Bool
  | array _ | table _ => false
  | _ => true

/-- Every table in a value has distinct keys. -/
inductive WellKeyed : Value → Prop where
  | leaf {value : Value} (h : value.isLeaf) : WellKeyed value
  | array {items : List Value} (h : ∀ item ∈ items, WellKeyed item) : WellKeyed (array items)
  | table {entries : Entries} (keys : DistinctKeys entries)
    (inner : ∀ entry ∈ entries, WellKeyed entry.2) : WellKeyed (table entries)

lemma WellKeyed.distinctKeys {entries : Entries} (h : (Value.table entries).WellKeyed) :
    DistinctKeys entries := by
  cases h with
  | leaf h => cases h
  | table keys _ => exact keys

lemma WellKeyed.of_mem {entries : Entries} {key : String} {value : Value}
    (h : (Value.table entries).WellKeyed) (hmem : (key, value) ∈ entries) : value.WellKeyed := by
  cases h with
  | leaf h => cases h
  | table _ inner => exact inner _ hmem

end Value

/-- Every table in a node has distinct keys. -/
inductive Node.WellKeyed : Node → Prop where
  | value {v : Value} (h : v.WellKeyed) : WellKeyed (value v)
  | table {origin : Origin} {nodes : Nodes} (keys : DistinctKeys nodes)
    (h : ∀ entry ∈ nodes, WellKeyed entry.2) : WellKeyed (table origin nodes)
  | tables {elements : List Nodes} (keys : ∀ nodes ∈ elements, DistinctKeys nodes)
    (h : ∀ nodes ∈ elements, ∀ entry ∈ nodes, WellKeyed entry.2) : WellKeyed (tables elements)

structure Nodes.WellKeyed (nodes : Nodes) : Prop where
  keys : DistinctKeys nodes
  inner : ∀ entry ∈ nodes, entry.2.WellKeyed

namespace Node

lemma wellKeyed_table_iff {origin : Origin} {nodes : Nodes} :
    (table origin nodes).WellKeyed ↔ nodes.WellKeyed := by
  constructor
  · rintro (_ | ⟨keys, h⟩ | _)
    exact ⟨keys, h⟩
  · rintro ⟨keys, h⟩
    exact .table keys h

lemma wellKeyed_tables_iff {elements : List Nodes} :
    (tables elements).WellKeyed ↔ ∀ nodes ∈ elements, nodes.WellKeyed := by
  constructor
  · rintro (_ | _ | ⟨keys, h⟩) nodes hnodes
    exact ⟨keys nodes hnodes, h nodes hnodes⟩
  · intro h
    exact .tables (fun nodes hnodes => (h nodes hnodes).keys) fun nodes hnodes =>
      (h nodes hnodes).inner

end Node

/-! Building tables. -/

namespace Nodes

variable {nodes after : Nodes} {key : String} {node : Node}

lemma wellKeyed_nil : WellKeyed [] := ⟨List.nodup_nil, fun _ h => nomatch h⟩

lemma map_fst_put (key : String) (node : Node) (nodes : Nodes) :
    (nodes.put key node).map Prod.fst =
      if key ∈ nodes.map Prod.fst then nodes.map Prod.fst else nodes.map Prod.fst ++ [key] := by
  induction nodes with
  | nil => rfl
  | cons entry nodes ih =>
    obtain ⟨k, old⟩ := entry
    by_cases hk : k = key
    · simp [put, hk]
    · simp only [put, if_neg hk, List.map_cons, ih, List.mem_cons, Ne.symm hk, false_or]
      split <;> rfl

lemma eq_or_mem_of_mem_put {entry : String × Node} (h : entry ∈ nodes.put key node) :
    entry.2 = node ∨ entry ∈ nodes := by
  induction nodes with
  | nil =>
    rw [put, List.mem_singleton] at h
    exact .inl (congrArg Prod.snd h)
  | cons first nodes ih =>
    obtain ⟨k, old⟩ := first
    rw [put] at h
    split at h
    · rcases List.mem_cons.mp h with rfl | hrest
      · exact .inl rfl
      · exact .inr (List.mem_cons_of_mem _ hrest)
    · rcases List.mem_cons.mp h with rfl | hrest
      · exact .inr List.mem_cons_self
      · exact (ih hrest).imp_right (List.mem_cons_of_mem _)

lemma WellKeyed.put (hnodes : nodes.WellKeyed) (hnode : node.WellKeyed) :
    (nodes.put key node).WellKeyed := by
  constructor
  · rw [DistinctKeys, map_fst_put]
    split
    · exact hnodes.keys
    · next hnew =>
      rw [← List.concat_eq_append]
      exact hnodes.keys.concat hnew
  · intro entry hentry
    rcases eq_or_mem_of_mem_put hentry with rfl | hold
    · exact hnode
    · exact hnodes.inner entry hold

lemma WellKeyed.of_lookup (hnodes : nodes.WellKeyed) (h : nodes.lookup key = some node) :
    node.WellKeyed :=
  hnodes.inner _ (mem_of_lookup h)

/-- A change at the end of a path keeps the keys distinct if it does so where it is made. -/
lemma WellKeyed.changeAt {byDottedKey : Bool} {change : Origin → Nodes → Option Nodes}
    (hchange : ∀ origin nodes after, WellKeyed nodes → change origin nodes = some after →
      WellKeyed after) {path : List String} {origin : Origin} (hnodes : nodes.WellKeyed)
    (h : nodes.changeAt byDottedKey change path origin = some after) : after.WellKeyed := by
  induction path generalizing origin nodes after with
  | nil => exact hchange origin nodes after hnodes h
  | cons key path ih =>
    rw [Nodes.changeAt] at h
    split at h
    · obtain ⟨inner, hinner, heq⟩ := Option.bind_eq_some_iff.mp h
      cases heq
      exact hnodes.put (Node.wellKeyed_table_iff.mpr (ih wellKeyed_nil hinner))
    · cases h
    · next old inner hfound =>
      split at h
      · cases h
      · obtain ⟨changed, hchanged, heq⟩ := Option.bind_eq_some_iff.mp h
        cases heq
        have hinner := Node.wellKeyed_table_iff.mp (hnodes.of_lookup hfound)
        exact hnodes.put (Node.wellKeyed_table_iff.mpr (ih hinner hchanged))
    · cases h
    · next last before hfound =>
      obtain ⟨changed, hchanged, heq⟩ := Option.bind_eq_some_iff.mp h
      cases heq
      have helements := Node.wellKeyed_tables_iff.mp (hnodes.of_lookup hfound)
      obtain ⟨hlast, hbefore⟩ := List.forall_mem_cons.mp helements
      apply hnodes.put
      exact Node.wellKeyed_tables_iff.mpr (List.forall_mem_cons.mpr ⟨ih hlast hchanged, hbefore⟩)

lemma WellKeyed.assign {path : List String} {value : Value} (hnodes : nodes.WellKeyed)
    (hvalue : value.WellKeyed) (h : nodes.assign path key value = some after) :
    after.WellKeyed := by
  refine hnodes.changeAt (fun origin nodes after hnodes hput => ?_) h
  split_ifs at hput
  cases hput
  exact hnodes.put (.value hvalue)

lemma WellKeyed.openTable {path : List String} (hnodes : nodes.WellKeyed)
    (h : nodes.openTable path key = some after) : after.WellKeyed := by
  refine hnodes.changeAt (fun origin nodes after hnodes hput => ?_) h
  split at hput
  · cases hput
    exact hnodes.put (Node.wellKeyed_table_iff.mpr wellKeyed_nil)
  · next inner hfound =>
    cases hput
    have hinner := Node.wellKeyed_table_iff.mp (hnodes.of_lookup hfound)
    exact hnodes.put (Node.wellKeyed_table_iff.mpr hinner)
  · cases hput

lemma WellKeyed.openElement {path : List String} (hnodes : nodes.WellKeyed)
    (h : nodes.openElement path key = some after) : after.WellKeyed := by
  refine hnodes.changeAt (fun origin nodes after hnodes hput => ?_) h
  split at hput
  · cases hput
    apply hnodes.put
    exact Node.wellKeyed_tables_iff.mpr (List.forall_mem_singleton.mpr wellKeyed_nil)
  · next elements hfound =>
    cases hput
    have helements := Node.wellKeyed_tables_iff.mp (hnodes.of_lookup hfound)
    apply hnodes.put
    exact Node.wellKeyed_tables_iff.mpr (List.forall_mem_cons.mpr ⟨wellKeyed_nil, helements⟩)
  · cases hput

lemma WellKeyed.assignWithin {header path : List String} {value : Value}
    (hnodes : nodes.WellKeyed) (hvalue : value.WellKeyed)
    (h : nodes.assignWithin header path key value = some after) : after.WellKeyed :=
  hnodes.changeAt (fun _ _ _ hinner hassign => hinner.assign hvalue hassign) h

end Nodes

/-! Finishing tables. -/

lemma finishNodes_eq_map (nodes : Nodes) :
    finishNodes nodes = nodes.map fun entry => (entry.1, entry.2.finish) := by
  induction nodes with
  | nil => rfl
  | cons entry nodes ih =>
    obtain ⟨key, node⟩ := entry
    rw [finishNodes, ih, List.map_cons]

lemma finishTables_eq_map (elements : List Nodes) :
    finishTables elements = elements.map fun nodes => .table (finishNodes nodes) := by
  induction elements with
  | nil => rfl
  | cons nodes elements ih => rw [finishTables, ih, List.map_cons]

lemma DistinctKeys.finishNodes {nodes : Nodes} (h : DistinctKeys nodes) :
    DistinctKeys (finishNodes nodes) := by
  rw [DistinctKeys, finishNodes_eq_map, List.map_map]
  exact h

lemma wellKeyed_finishNodes {nodes : Nodes} (keys : DistinctKeys nodes)
    (h : ∀ entry ∈ nodes, entry.2.finish.WellKeyed) :
    (Value.table (finishNodes nodes)).WellKeyed := by
  refine .table keys.finishNodes fun entry hentry => ?_
  rw [finishNodes_eq_map] at hentry
  obtain ⟨old, hold, rfl⟩ := List.mem_map.mp hentry
  exact h old hold

lemma Node.WellKeyed.finish {node : Node} (h : node.WellKeyed) : node.finish.WellKeyed := by
  induction h with
  | value h => exact h
  | table keys _ ih => exact wellKeyed_finishNodes keys ih
  | tables keys _ ih =>
    refine .array fun item hitem => ?_
    rw [List.mem_reverse, finishTables_eq_map] at hitem
    obtain ⟨nodes, hnodes, rfl⟩ := List.mem_map.mp hitem
    exact wellKeyed_finishNodes (keys nodes hnodes) (ih nodes hnodes)

lemma Nodes.WellKeyed.finish {nodes : Nodes} (h : nodes.WellKeyed) :
    (Value.table (finishNodes nodes)).WellKeyed :=
  wellKeyed_finishNodes h.keys fun entry hentry => (h.inner entry hentry).finish

/-! Steps in order. -/

lemma invariant_of_foldlM {α β : Type} {step : β → α → Option β} (Good : β → Prop)
    {Fine : α → Prop} (hstep : ∀ b a after, Good b → Fine a → step b a = some after → Good after)
    {as : List α} {b after : β} (has : ∀ a ∈ as, Fine a) (hb : Good b)
    (h : as.foldlM step b = some after) : Good after := by
  induction as generalizing b with
  | nil =>
    cases h
    exact hb
  | cons a as ih =>
    rw [List.foldlM_cons] at h
    obtain ⟨mid, hmid, hrest⟩ := Option.bind_eq_some_iff.mp h
    obtain ⟨ha, has⟩ := List.forall_mem_cons.mp has
    exact ih has (hstep b a mid hb ha hmid) hrest

lemma wellKeyed_ofAssignments? {assignments : List (List String × String × Value)}
    {entries : Entries} (hvalues : ∀ assignment ∈ assignments, assignment.2.2.WellKeyed)
    (h : Entries.ofAssignments? assignments = some entries) : (Value.table entries).WellKeyed := by
  obtain ⟨nodes, hnodes, heq⟩ := Option.bind_eq_some_iff.mp h
  cases heq
  have hgood : nodes.WellKeyed := by
    refine invariant_of_foldlM Nodes.WellKeyed (fun _ _ _ hnodes hvalue hassign => ?_) hvalues
      Nodes.wellKeyed_nil hnodes
    exact hnodes.assign hvalue hassign
  exact hgood.finish

namespace Statement

/-- Every table in the value of an assignment has distinct keys. -/
def WellKeyed : Statement → Prop
  | assign _ value => value.WellKeyed
  | table _ | element _ => True

end Statement

lemma Draft.wellKeyed_of_perform {draft after : Draft} {statement : Statement}
    (hdraft : draft.nodes.WellKeyed) (hstatement : statement.WellKeyed)
    (h : draft.perform statement = some after) : after.nodes.WellKeyed := by
  cases statement <;> obtain ⟨nodes, hnodes, heq⟩ := Option.bind_eq_some_iff.mp h <;> cases heq
  case assign => exact hdraft.assignWithin hstatement hnodes
  case table => exact hdraft.openTable hnodes
  case element => exact hdraft.openElement hnodes

lemma wellKeyed_ofStatements? {statements : List Statement} {entries : Entries}
    (hstatements : ∀ statement ∈ statements, statement.WellKeyed)
    (h : Entries.ofStatements? statements = some entries) : (Value.table entries).WellKeyed := by
  obtain ⟨draft, hdraft, heq⟩ := Option.bind_eq_some_iff.mp h
  cases heq
  have hgood : draft.nodes.WellKeyed := by
    refine invariant_of_foldlM (·.nodes.WellKeyed) (fun _ _ _ hdraft hstatement hperform => ?_)
      hstatements Nodes.wellKeyed_nil hdraft
    exact Draft.wellKeyed_of_perform hdraft hstatement hperform
  exact hgood.finish

end CharacterSheet.Toml
