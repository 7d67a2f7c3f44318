import Logbook.Configuration.Json
import Logbook.Proofs.Json.Printed

/-! Configurations as text and back. A table of categories is read entry by entry in the order of the names, so that
    each new entry comes last; a table of host colors is read color by color. Main statement: every configuration is
    read back from its JSON text as it was, whatever characters its template and its names have. -/

namespace Logbook
open Json

/-! ### Names -/

theorem Color.ofName_name (c : Color) : Color.ofName c.name = .ok c := by
  cases c <;> decide

theorem Severity.ofName_name (s : Severity) : Severity.ofName s.name = .ok s := by
  cases s <;> decide

theorem Color.reads (c : Color) : Reads Color.read (.text c.name) c :=
  reads_named (by rw [Color.ofName_name]; rfl)

theorem Severity.reads (s : Severity) : Reads Severity.read (.text s.name) s :=
  reads_named (by rw [Severity.ofName_name]; rfl)

/-! ### Categories -/

theorem Category.reads (c : Category) : Reads Category.read c.toJson c := by
  obtain ⟨color, isDefault⟩ := c
  refine reads_record (by decide) ?_
  cases color with
  | none => exact .skip (.cons ((reads_bool isDefault).map fun _ => rfl) (.nil _))
  | some color =>
    exact .cons ((reads_optional color.reads).map fun _ => rfl)
      (.cons ((reads_bool isDefault).map fun _ => rfl) (.nil _))

namespace CategoryTable

theorem insertEntry_last {name : String} {category : Category} {entries : List (String × Category)}
    (h : ∀ entry ∈ entries, entry.1 < name) :
    insertEntry name category entries = entries ++ [(name, category)] := by
  induction entries with
  | nil => rfl
  | cons first rest ih =>
    have hfirst : first.1 < name := h first List.mem_cons_self
    have hafter : ¬name < first.1 := fun hlt => String.lt_irrefl _ (String.lt_trans hlt hfirst)
    have hne : name ≠ first.1 := fun heq => String.lt_irrefl _ (heq ▸ hfirst)
    rw [insertEntry, if_neg hafter, if_neg hne, ih fun entry hentry => h entry (List.mem_cons_of_mem _ hentry),
      List.cons_append]

/-- Entries that come in order are put one after the other behind those that are there. -/
theorem entries_foldl_insert (t : CategoryTable) {later : List (String × Category)}
    (h : (t.entries ++ later).Pairwise fun a b => a.1 < b.1) :
    (later.foldl (fun t entry => t.insert entry.1 entry.2) t).entries = t.entries ++ later := by
  induction later generalizing t with
  | nil => simp
  | cons entry later ih =>
    have hlast : (t.insert entry.1 entry.2).entries = t.entries ++ [entry] :=
      insertEntry_last fun other hother => (List.pairwise_append.mp h).2.2 other hother entry List.mem_cons_self
    rw [List.foldl_cons, ih, hlast, List.append_assoc, List.singleton_append]
    rwa [hlast, List.append_assoc, List.singleton_append]

theorem ofList_entries (t : CategoryTable) : ofList t.entries = t := by
  have h : (ofList t.entries).entries = t.entries := entries_foldl_insert ∅ t.sorted
  cases ht : ofList t.entries
  rw [ht] at h
  cases t
  cases h
  rfl

theorem reads (t : CategoryTable) : Reads CategoryTable.read t.toJson t := by
  have h := reads_table (fun name => name) insert (fun _ => rfl) Category.reads ∅ t.entries
  rwa [show t.entries.foldl (fun t e => t.insert e.1 e.2) ∅ = t from ofList_entries t] at h

end CategoryTable

/-! ### Host colors -/

namespace HostColors

theorem readKey_name (s : Severity) : readKey s.name = .ok s := by
  rw [readKey, Severity.ofName_name]
  rfl

/-- Where the colors of some severities are set in a table, it has these and otherwise its own. -/
theorem get?_foldl_insert (t u : HostColors) (severities : List Severity) (r : Severity) :
    ((severities.filterMap fun s => (t.get? s).map fun color => (s, color)).foldl
      (fun v e => v.insert e.1 e.2) u).get? r = if r ∈ severities then (t.get? r).or (u.get? r) else u.get? r := by
  induction severities generalizing u with
  | nil => rfl
  | cons s severities ih =>
    cases hs : t.get? s with
    | none =>
      rw [List.filterMap_cons_none (by rw [hs]; rfl), ih]
      by_cases hr : r = s
      · simp [hr, hs]
      · simp [hr]
    | some color =>
      rw [List.filterMap_cons_some (by rw [hs]; rfl), List.foldl_cons, ih, get?_insert]
      by_cases hr : r = s
      · simp [hr, hs]
      · simp [hr]

theorem foldl_toList (t : HostColors) : t.toList.foldl (fun v e => v.insert e.1 e.2) ∅ = t := by
  refine ext_get? fun r => ?_
  rw [toList, get?_foldl_insert, if_pos (Severity.mem_all r)]
  cases r <;> exact Option.or_none

theorem reads (t : HostColors) : Reads HostColors.read t.toJson t := by
  have h := reads_table Severity.name insert readKey_name Color.reads ∅ t.toList
  rwa [foldl_toList] at h

end HostColors

/-! ### Configurations -/

theorem FileSettings.reads (f : FileSettings) : Reads FileSettings.read f.toJson f := by
  refine reads_record (by decide) ?_
  exact .cons ((reads_string f.name).map fun _ => rfl) (.cons ((reads_bool f.includeDate).map fun _ => rfl)
    (.cons ((reads_bool f.overwrite).map fun _ => rfl) (.cons ((reads_bool f.fromScript).map fun _ => rfl)
    (.cons ((reads_bool f.fromHost).map fun _ => rfl) (.nil _)))))

namespace Configuration

theorem reads (c : Configuration) : Reads Configuration.read c.toJson c := by
  refine reads_record (by decide) ?_
  exact .cons (c.threshold.reads.map fun _ => rfl) (.cons ((reads_string c.template).map fun _ => rfl)
    (.cons ((reads_bool c.writeToHost).map fun _ => rfl) (.cons (c.hostColors.reads.map fun _ => rfl)
    (.cons (c.categories.reads.map fun _ => rfl) (.cons (c.file.reads.map fun _ => rfl) (.nil _))))))

/-- A configuration is read back from its text as it was, also one that is not valid. -/
theorem ofJson_toJsonText (c : Configuration) : ofJson c.toJsonText = .ok c :=
  document_prettyText c.reads

theorem ofJson?_toJsonText {c : Configuration} (h : c.validate = .ok ()) : ofJson? c.toJsonText = .ok c := by
  simp only [ofJson?, ofJson_toJsonText, Except.mapError, h, bind, Except.bind]
  rfl

end Configuration
end Logbook
