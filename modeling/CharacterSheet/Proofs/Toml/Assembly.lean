import CharacterSheet.Proofs.Toml.Keys
import Mathlib.Data.List.Induction

/-!
The tables that assignments build. Assignments to new keys add their entries one after another, at
the top of a document, in the table that a header opened, and in an inline table. Assignments to
dotted keys with one common parent gather its table, wherever they stand among the others.
-/
namespace CharacterSheet.Toml

section Keys

variable {α : Type} {entries before after : List (String × α)} {key : String} {a : α}

lemma lookup_eq_none_iff_keys : entries.lookup key = none ↔ key ∉ entries.map Prod.fst := by
  rw [lookup_eq_none_iff_not_mem]
  simp

lemma lookup_middle (h : key ∉ before.map Prod.fst) :
    (before ++ (key, a) :: after).lookup key = some a := by
  rw [List.lookup_append, lookup_eq_none_iff_keys.mpr h]
  simp

lemma DistinctKeys.of_append (h : DistinctKeys (before ++ after)) : DistinctKeys before := by
  rw [DistinctKeys, List.map_append] at h
  exact h.of_append_left

lemma DistinctKeys.not_mem_of_append {k : String} (h : DistinctKeys (entries ++ [(k, a)])) :
    k ∉ entries.map Prod.fst := by
  rw [DistinctKeys, List.map_append, List.nodup_append] at h
  intro hk
  exact h.2.2 k hk k List.mem_cons_self rfl

lemma DistinctKeys.perm (h : DistinctKeys entries) (hperm : before.Perm entries) :
    DistinctKeys before :=
  (hperm.map Prod.fst).nodup_iff.mpr h

end Keys

/-- A fold over one item more takes one step more. -/
lemma foldlM_snoc {α β : Type} {step : β → α → Option β} {as : List α} {b mid : β}
    (h : as.foldlM step b = some mid) (a : α) : (as ++ [a]).foldlM step b = step mid a := by
  rw [List.foldlM_append, h]
  exact bind_pure (step mid a)

namespace Nodes

variable {nodes before after : Nodes} {key : String} {node old : Node}

lemma put_new (h : key ∉ nodes.map Prod.fst) : nodes.put key node = nodes ++ [(key, node)] := by
  induction nodes with
  | nil => rfl
  | cons first nodes ih =>
    obtain ⟨k, old⟩ := first
    rw [List.map_cons, List.mem_cons, not_or] at h
    rw [put, if_neg (Ne.symm h.1), ih h.2]
    rfl

lemma put_middle (h : key ∉ before.map Prod.fst) :
    put key node (before ++ (key, old) :: after) = before ++ (key, node) :: after := by
  induction before with
  | nil => simp [put]
  | cons first before ih =>
    obtain ⟨k, other⟩ := first
    rw [List.map_cons, List.mem_cons, not_or] at h
    rw [List.cons_append, put, if_neg (Ne.symm h.1), ih h.2]
    rfl

/-- Entries as they stand in a table under construction. -/
def ofEntries (entries : Entries) : Nodes := entries.map fun entry => (entry.1, .value entry.2)

lemma ofEntries_append (entries others : Entries) :
    ofEntries (entries ++ others) = ofEntries entries ++ ofEntries others :=
  List.map_append

@[simp] lemma map_fst_ofEntries (entries : Entries) :
    (ofEntries entries).map Prod.fst = entries.map Prod.fst := by
  simp [ofEntries]

@[simp] lemma finishNodes_ofEntries (entries : Entries) :
    finishNodes (ofEntries entries) = entries := by
  have hfinish : (fun entry => (entry.1, entry.2.finish)) ∘
      (fun entry => (entry.1, Node.value entry.2)) = (id : String × Value → String × Value) := rfl
  rw [finishNodes_eq_map, ofEntries, List.map_map, hfinish, List.map_id]

lemma finishNodes_append (nodes others : Nodes) :
    finishNodes (nodes ++ others) = finishNodes nodes ++ finishNodes others := by
  simp only [finishNodes_eq_map, List.map_append]

/-! Single assignments. -/

lemma assign_new (h : key ∉ nodes.map Prod.fst) (value : Value) :
    nodes.assign [] key value = some (nodes ++ [(key, .value value)]) := by
  rw [assign, changeAt, lookup_eq_none_iff_keys.mpr h, put_new h]
  rfl

end Nodes

/-- Assignments to distinct keys make a table of their entries in order. -/
lemma ofAssignments?_plain {entries : Entries} (h : DistinctKeys entries) :
    Entries.ofAssignments? (entries.map fun entry => ([], entry.1, entry.2)) = some entries := by
  have hnodes : (entries.map fun entry => ([], entry.1, entry.2)).foldlM
      (fun (nodes : Nodes) (assignment : List String × String × Value) =>
        nodes.assign assignment.1 assignment.2.1 assignment.2.2) [] =
          some (Nodes.ofEntries entries) := by
    induction entries using List.reverseRecOn with
    | nil => rfl
    | append_singleton entries entry ih =>
      have hnew : entry.1 ∉ (Nodes.ofEntries entries).map Prod.fst := by
        rw [Nodes.map_fst_ofEntries]
        exact h.not_mem_of_append
      rw [List.map_append, Nodes.ofEntries_append]
      exact (foldlM_snoc (ih h.of_append) _).trans (Nodes.assign_new hnew _)
  change Option.bind (List.foldlM _ [] _) _ = _
  rw [hnodes]
  exact congrArg some (Nodes.finishNodes_ofEntries entries)

namespace Statement

/-- The assignment of an entry to a key of its own. -/
def plain (entry : String × Value) : Statement := assign ⟨[], entry.1⟩ entry.2

/-- The assignment of an entry of a table to a dotted key. -/
def dotted (key : String) (member : String × Value) : Statement := assign ⟨[key], member.1⟩ member.2

def entry? : Statement → Option (String × Value)
  | assign ⟨[], key⟩ value => some (key, value)
  | _ => none

def member? (key : String) : Statement → Option (String × Value)
  | assign ⟨[parent], inner⟩ value => if parent = key then some (inner, value) else none
  | _ => none

@[simp] lemma member?_dotted (key : String) (member : String × Value) :
    (dotted key member).member? key = some member :=
  if_pos rfl

/-- The entries that are assigned to keys of their own. -/
def entries (statements : List Statement) : Entries := statements.filterMap entry?

/-- The members of a table that are assigned to dotted keys. -/
def members (key : String) (statements : List Statement) : Entries :=
  statements.filterMap (member? key)

lemma entries_append (statements others : List Statement) :
    entries (statements ++ others) = entries statements ++ entries others :=
  List.filterMap_append

lemma members_append (key : String) (statements others : List Statement) :
    members key (statements ++ others) = members key statements ++ members key others :=
  List.filterMap_append

lemma entries_map_plain (entered : Entries) : entries (entered.map plain) = entered := by
  rw [entries, List.filterMap_map]
  exact List.filterMap_some

lemma entries_map_dotted (key : String) (inner : Entries) :
    entries (inner.map (dotted key)) = [] := by
  rw [entries, List.filterMap_map, List.filterMap_eq_nil_iff]
  exact fun _ _ => rfl

lemma members_map_plain (key : String) (entered : Entries) :
    members key (entered.map plain) = [] := by
  rw [members, List.filterMap_map, List.filterMap_eq_nil_iff]
  exact fun _ _ => rfl

lemma members_map_dotted (key : String) (inner : Entries) :
    members key (inner.map (dotted key)) = inner := by
  have hmember : member? key ∘ dotted key = some := by
    funext member
    exact member?_dotted key member
  rw [members, List.filterMap_map, hmember, List.filterMap_some]

/-- Every statement assigns an entry to a key of its own. -/
def AllPlain (statements : List Statement) : Prop :=
  ∀ statement ∈ statements, ∃ entry, statement = plain entry

lemma AllPlain.of_perm {statements : List Statement} {entered : Entries}
    (h : statements.Perm (entered.map plain)) : AllPlain statements := by
  intro statement hstatement
  obtain ⟨entry, -, rfl⟩ := List.mem_map.mp (h.mem_iff.mp hstatement)
  exact ⟨entry, rfl⟩

lemma entries_perm {statements : List Statement} {entered : Entries}
    (h : statements.Perm (entered.map plain)) : (entries statements).Perm entered := by
  have hperm : (entries statements).Perm (entries (entered.map plain)) := h.filterMap entry?
  rwa [entries_map_plain] at hperm

lemma AllPlain.members_eq_nil {statements : List Statement} (h : AllPlain statements)
    (key : String) : members key statements = [] := by
  rw [members, List.filterMap_eq_nil_iff]
  intro statement hstatement
  obtain ⟨entry, rfl⟩ := h statement hstatement
  rfl

end Statement

open Statement (plain dotted AllPlain)
open Nodes

variable {nodes : Nodes} {key : String} {statements : List Statement}

/-! Steps at the top of a document. -/

namespace Draft

lemma perform_plain {entry : String × Value} (h : entry.1 ∉ nodes.map Prod.fst) :
    perform ⟨nodes, []⟩ (plain entry) = some ⟨nodes ++ [(entry.1, .value entry.2)], []⟩ := by
  have hassign := assign_new h entry.2
  change (nodes.assign [] entry.1 entry.2).bind _ = _
  rw [hassign]
  rfl

lemma perform_dotted_first {member : String × Value} (h : key ∉ nodes.map Prod.fst) :
    perform ⟨nodes, []⟩ (dotted key member) =
      some ⟨nodes ++ [(key, .table .dotted (ofEntries [member]))], []⟩ := by
  have hassign : nodes.assign [key] member.1 member.2 =
      some (nodes ++ [(key, .table .dotted (ofEntries [member]))]) := by
    rw [Nodes.assign, changeAt, lookup_eq_none_iff_keys.mpr h, ← put_new h]
    rfl
  change (nodes.assign [key] member.1 member.2).bind _ = _
  rw [hassign]
  rfl

lemma perform_dotted_again {before after inner : Nodes} {member : String × Value}
    (h : key ∉ before.map Prod.fst) (hinner : member.1 ∉ inner.map Prod.fst) :
    perform ⟨before ++ (key, .table .dotted inner) :: after, []⟩ (dotted key member) =
      some ⟨before ++ (key, .table .dotted (inner ++ [(member.1, .value member.2)])) :: after,
        []⟩ := by
  have hassign : Nodes.assign [key] member.1 member.2
      (before ++ (key, .table .dotted inner) :: after) =
        some (before ++ (key, .table .dotted (inner ++ [(member.1, .value member.2)])) ::
          after) := by
    rw [Nodes.assign, changeAt, lookup_middle h]
    dsimp only
    rw [changeAt, lookup_eq_none_iff_keys.mpr hinner, put_new hinner]
    exact congrArg some (put_middle h)
  change (Nodes.assign [key] member.1 member.2 _).bind _ = _
  rw [hassign]
  rfl

lemma perform_header (h : key ∉ nodes.map Prod.fst) :
    perform ⟨nodes, []⟩ (.table ⟨[], key⟩) =
      some ⟨nodes ++ [(key, .table .header [])], [key]⟩ := by
  have hopen : nodes.openTable [] key = some (nodes ++ [(key, .table .header [])]) := by
    rw [openTable, changeAt, lookup_eq_none_iff_keys.mpr h, put_new h]
  change (nodes.openTable [] key).bind _ = _
  rw [hopen]
  rfl

lemma perform_plain_within {inner : Nodes} {member : String × Value}
    (h : key ∉ nodes.map Prod.fst) (hinner : member.1 ∉ inner.map Prod.fst) :
    perform ⟨nodes ++ [(key, .table .header inner)], [key]⟩ (plain member) =
      some ⟨nodes ++ [(key, .table .header (inner ++ [(member.1, .value member.2)]))], [key]⟩ := by
  have hassign : assignWithin [key] [] member.1 member.2 (nodes ++ [(key, .table .header inner)]) =
      some (nodes ++ [(key, .table .header (inner ++ [(member.1, .value member.2)]))]) := by
    rw [assignWithin, changeAt, lookup_middle h]
    dsimp only
    rw [changeAt, assign_new hinner]
    exact congrArg some (put_middle h)
  change (assignWithin [key] [] member.1 member.2 _).bind _ = _
  rw [hassign]
  rfl

end Draft

/-! All assignments of a document. -/

/-- Assignments to distinct keys, and to distinct dotted keys with one parent. -/
structure Gatherable (key : String) (statements : List Statement) : Prop where
  shape : ∀ statement ∈ statements,
    (∃ entry, statement = plain entry) ∨ ∃ member, statement = dotted key member
  entries : DistinctKeys (Statement.entries statements)
  members : DistinctKeys (Statement.members key statements)
  apart : Statement.members key statements ≠ [] → key ∉ (Statement.entries statements).map Prod.fst

/-- The entries of a document, with the members of one table gathered in the place of the first. -/
inductive Gathers (key : String) : Nodes → Entries → Entries → Prop where
  | entries {entries : Entries} : Gathers key (ofEntries entries) entries []
  | table {before after members : Entries} (hmembers : members ≠ []) :
    Gathers key (ofEntries before ++ (key, .table .dotted (ofEntries members)) :: ofEntries after)
      (before ++ after) members

lemma Gatherable.of_append {statement : Statement}
    (h : Gatherable key (statements ++ [statement])) :
    Gatherable key statements := by
  obtain ⟨hshape, hentries, hmembers, hapart⟩ := h
  rw [Statement.entries_append] at hentries hapart
  rw [Statement.members_append] at hmembers hapart
  refine ⟨fun s hs => hshape s (List.mem_append_left _ hs), hentries.of_append, hmembers.of_append,
    fun hne hmem => ?_⟩
  apply hapart (List.append_ne_nil_of_left_ne_nil hne _)
  rw [List.map_append]
  exact List.mem_append_left _ hmem

lemma Gathers.perform_plain {entries members : Entries} {entry : String × Value}
    (h : Gathers key nodes entries members)
    (hnew : entry.1 ∉ entries.map Prod.fst) (hapart : members ≠ [] → entry.1 ≠ key) :
    ∃ after, Draft.perform ⟨nodes, []⟩ (plain entry) = some ⟨after, []⟩ ∧
      Gathers key after (entries ++ [entry]) members := by
  cases h with
  | entries =>
    refine ⟨_, Draft.perform_plain (by rwa [map_fst_ofEntries]), ?_⟩
    change Gathers key (ofEntries entries ++ ofEntries [entry]) _ _
    rw [← ofEntries_append]
    exact .entries
  | @table before after _ hmembers =>
    refine ⟨_, Draft.perform_plain ?_, ?_⟩
    · rw [List.map_append, List.map_cons, map_fst_ofEntries, map_fst_ofEntries]
      simpa [hapart hmembers] using hnew
    · rw [List.append_assoc, List.cons_append, List.append_assoc]
      change Gathers key (_ ++ (key, _) :: (ofEntries after ++ ofEntries [entry])) _ _
      rw [← ofEntries_append]
      exact .table hmembers

lemma Gathers.perform_dotted {entries members : Entries} {member : String × Value}
    (h : Gathers key nodes entries members)
    (hnew : member.1 ∉ members.map Prod.fst) (hapart : key ∉ entries.map Prod.fst) :
    ∃ after, Draft.perform ⟨nodes, []⟩ (dotted key member) = some ⟨after, []⟩ ∧
      Gathers key after entries (members ++ [member]) := by
  cases h with
  | entries =>
    refine ⟨_, Draft.perform_dotted_first (by rwa [map_fst_ofEntries]), ?_⟩
    have htable : Gathers key (ofEntries entries ++ (key, .table .dotted (ofEntries [member])) ::
        ofEntries []) (entries ++ []) [member] := .table (List.cons_ne_nil member [])
    rwa [List.append_nil] at htable
  | @table before after _ hmembers =>
    have hbefore : key ∉ (ofEntries before).map Prod.fst := by
      rw [List.map_append, List.mem_append, not_or] at hapart
      rw [map_fst_ofEntries]
      exact hapart.1
    refine ⟨_, Draft.perform_dotted_again hbefore (by rwa [map_fst_ofEntries]), ?_⟩
    change Gathers key (_ ++ (key, .table _ (ofEntries members ++ ofEntries [member])) :: _) _ _
    rw [← ofEntries_append]
    exact .table (List.append_ne_nil_of_left_ne_nil hmembers _)

/-- Assignments to distinct keys succeed, and gather the table of the dotted ones. -/
lemma Gatherable.exists_gathers (h : Gatherable key statements) :
    ∃ nodes, statements.foldlM Draft.perform Draft.empty = some ⟨nodes, []⟩ ∧
      Gathers key nodes (Statement.entries statements) (Statement.members key statements) := by
  induction statements using List.reverseRecOn with
  | nil => exact ⟨[], rfl, @Gathers.entries key []⟩
  | append_singleton statements statement ih =>
    obtain ⟨nodes, hnodes, hgathers⟩ := ih h.of_append
    obtain ⟨hshape, hentries, hmembers, hapart⟩ := h
    rw [foldlM_snoc hnodes, Statement.entries_append, Statement.members_append]
    rw [Statement.entries_append] at hentries hapart
    rw [Statement.members_append] at hmembers hapart
    rcases hshape statement (List.mem_append_right _ List.mem_cons_self) with
      ⟨entry, rfl⟩ | ⟨member, rfl⟩
    · have hnew : entry.1 ∉ (Statement.entries statements).map Prod.fst :=
        hentries.not_mem_of_append
      have hentry : Statement.members key statements ≠ [] → entry.1 ≠ key := by
        rintro hne rfl
        apply hapart (List.append_ne_nil_of_left_ne_nil hne _)
        rw [List.map_append]
        exact List.mem_append_right _ List.mem_cons_self
      have hnone : Statement.members key [plain entry] = [] :=
        Statement.members_map_plain key [entry]
      rw [hnone, List.append_nil]
      exact hgathers.perform_plain hnew hentry
    · have hnone : Statement.entries [dotted key member] = [] :=
        Statement.entries_map_dotted key [member]
      have hone : Statement.members key [dotted key member] = [member] :=
        Statement.members_map_dotted key [member]
      rw [hnone, List.append_nil] at hapart ⊢
      rw [hone] at hmembers hapart ⊢
      have hkey : key ∉ (Statement.entries statements).map Prod.fst :=
        hapart (List.append_ne_nil_of_right_ne_nil _ (List.cons_ne_nil _ _))
      exact hgathers.perform_dotted hmembers.not_mem_of_append hkey

lemma Gathers.eq_ofEntries {entries : Entries} (h : Gathers key nodes entries []) :
    nodes = ofEntries entries := by
  cases h with
  | entries => rfl
  | table hmembers => contradiction

/-- What is gathered makes a document with the table among the other entries. -/
lemma Gathers.finish_perm {entries members : Entries}
    (h : Gathers key nodes entries members) (hmembers : members ≠ []) :
    (finishNodes nodes).Perm ((key, .table members) :: entries) := by
  cases h with
  | entries => contradiction
  | @table before after =>
    rw [finishNodes_append, finishNodes_ofEntries, finishNodes, finishNodes_ofEntries, Node.finish,
      finishNodes_ofEntries]
    exact List.perm_middle

/-- Assignments to distinct keys add their entries to an empty document in order. -/
lemma foldlM_perform_plain (hplain : AllPlain statements)
    (hkeys : DistinctKeys (Statement.entries statements)) :
    statements.foldlM Draft.perform Draft.empty =
      some ⟨ofEntries (Statement.entries statements), []⟩ := by
  have hnil := hplain.members_eq_nil ""
  have hgatherable : Gatherable "" statements :=
    ⟨fun statement hstatement => .inl (hplain statement hstatement), hkeys,
      hnil ▸ List.nodup_nil, fun hne => absurd hnil hne⟩
  obtain ⟨nodes, hnodes, hgathers⟩ := hgatherable.exists_gathers
  rw [hnil] at hgathers
  rw [hnodes, hgathers.eq_ofEntries]

/-- Assignments below a header add their entries to its table in order. -/
lemma foldlM_perform_within (hkey : key ∉ nodes.map Prod.fst) (hplain : AllPlain statements)
    (hkeys : DistinctKeys (Statement.entries statements)) :
    statements.foldlM Draft.perform ⟨nodes ++ [(key, .table .header [])], [key]⟩ =
      some ⟨nodes ++ [(key, .table .header (ofEntries (Statement.entries statements)))],
        [key]⟩ := by
  induction statements using List.reverseRecOn with
  | nil => rfl
  | append_singleton statements statement ih =>
    obtain ⟨entry, rfl⟩ := hplain statement (List.mem_append_right _ List.mem_cons_self)
    rw [Statement.entries_append] at hkeys ⊢
    have hbefore := ih (fun s hs => hplain s (List.mem_append_left _ hs)) hkeys.of_append
    rw [foldlM_snoc hbefore, ofEntries_append]
    apply Draft.perform_plain_within hkey
    rw [map_fst_ofEntries]
    exact hkeys.not_mem_of_append

/-! Documents. -/

section Documents

variable {entered inner : Entries}

/-- Assignments to distinct keys make a document of their entries. -/
theorem document_of_plain (h : statements.Perm (entered.map plain)) (hkeys : DistinctKeys entered) :
    ∃ document, Entries.ofStatements? statements = some document ∧ document.Perm entered := by
  have hentries := Statement.entries_perm h
  refine ⟨_, ?_, hentries⟩
  rw [Entries.ofStatements?, foldlM_perform_plain (.of_perm h) (hkeys.perm hentries)]
  exact congrArg some (finishNodes_ofEntries _)

/-- The table that a header opens stands in the document after the entries above. -/
theorem document_of_header {below : List Statement} (habove : statements.Perm (entered.map plain))
    (hbelow : below.Perm (inner.map plain)) (hkeys : DistinctKeys entered)
    (hinner : DistinctKeys inner) (hkey : key ∉ entered.map Prod.fst) :
    ∃ document members,
      Entries.ofStatements? (statements ++ .table ⟨[], key⟩ :: below) = some document ∧
      members.Perm inner ∧ document.Perm ((key, .table members) :: entered) := by
  have hentries := Statement.entries_perm habove
  have hmembers := Statement.entries_perm hbelow
  have hnodes : key ∉ (ofEntries (Statement.entries statements)).map Prod.fst := by
    rwa [map_fst_ofEntries, (hentries.map Prod.fst).mem_iff]
  have hdraft : (statements ++ .table ⟨[], key⟩ :: below).foldlM Draft.perform Draft.empty = some
      ⟨ofEntries (Statement.entries statements) ++
        [(key, .table .header (ofEntries (Statement.entries below)))], [key]⟩ := by
    rw [List.foldlM_append, foldlM_perform_plain (.of_perm habove) (hkeys.perm hentries),
      Option.bind_eq_bind, Option.bind_some, List.foldlM_cons, Draft.perform_header hnodes,
      Option.bind_eq_bind, Option.bind_some,
      foldlM_perform_within hnodes (.of_perm hbelow) (hinner.perm hmembers)]
  refine ⟨Statement.entries statements ++ [(key, .table (Statement.entries below))], _, ?_,
    hmembers, (List.perm_append_singleton _ _).trans (hentries.cons _)⟩
  rw [Entries.ofStatements?, hdraft, Option.bind_eq_bind, Option.bind_some, finishNodes_append,
    finishNodes_ofEntries, finishNodes, Node.finish, finishNodes_ofEntries]
  rfl

/-- The members of a table are gathered from dotted keys anywhere in the document. -/
theorem document_of_dotted
    (h : statements.Perm (inner.map (dotted key) ++ entered.map plain)) (hne : inner ≠ [])
    (hkeys : DistinctKeys entered) (hinner : DistinctKeys inner)
    (hkey : key ∉ entered.map Prod.fst) :
    ∃ document members, Entries.ofStatements? statements = some document ∧
      members.Perm inner ∧ document.Perm ((key, .table members) :: entered) := by
  have hentries : (Statement.entries statements).Perm entered := by
    have hperm : (Statement.entries statements).Perm (Statement.entries _) := h.filterMap _
    rwa [Statement.entries_append, Statement.entries_map_dotted,
      Statement.entries_map_plain] at hperm
  have hmembers : (Statement.members key statements).Perm inner := by
    have hperm : (Statement.members key statements).Perm (Statement.members key _) :=
      h.filterMap _
    rwa [Statement.members_append, Statement.members_map_dotted, Statement.members_map_plain,
      List.append_nil] at hperm
  have hgatherable : Gatherable key statements := by
    refine ⟨fun statement hstatement => ?_, hkeys.perm hentries, hinner.perm hmembers,
      fun _ => ?_⟩
    · rcases List.mem_append.mp (h.mem_iff.mp hstatement) with hmem | hmem
      · obtain ⟨member, -, rfl⟩ := List.mem_map.mp hmem
        exact .inr ⟨member, rfl⟩
      · obtain ⟨entry, -, rfl⟩ := List.mem_map.mp hmem
        exact .inl ⟨entry, rfl⟩
    · rwa [(hentries.map Prod.fst).mem_iff]
  obtain ⟨nodes, hnodes, hgathers⟩ := hgatherable.exists_gathers
  have hgathered : Statement.members key statements ≠ [] := by
    intro hnil
    rw [hnil] at hmembers
    exact hne hmembers.nil_eq.symm
  refine ⟨finishNodes nodes, _, ?_, hmembers,
    (hgathers.finish_perm hgathered).trans (hentries.cons _)⟩
  rw [Entries.ofStatements?, hnodes]
  rfl

end Documents

end CharacterSheet.Toml
