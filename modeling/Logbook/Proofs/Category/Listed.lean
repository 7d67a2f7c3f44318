import Logbook.Proofs.Category.Calls

/-! Categories under the names they are listed by. Setting a category trims its name and takes the place of its other
    spellings. A table that is read, or made of entries, keeps the names that it is given, and the check of a table asks
    neither for blanks around them nor for two spellings of one name. Main statement: a category is found and removed by
    the name it is listed under exactly if one entry alone answers to that name, and that one has the same settings. -/

namespace Logbook
namespace CategoryTable

/-! ### The entry that a name stands for -/

/-- The entry with exactly this name, or else the first that agrees with it up to letter case. -/
def listed? (t : CategoryTable) (name : String) : Option (String × Category) :=
  (t.entries.find? fun entry => entry.1 == name).or (t.entries.find? fun entry => Text.sameLetters entry.1 name)

section
variable {t : CategoryTable} {name q : String} {entry other : String × Category}

theorem eq_of_name_eq (hentry : entry ∈ t.entries) (hother : other ∈ t.entries) (h : entry.1 = other.1) :
    entry = other := by
  have hfound := find?_eq_some_iff.mpr hentry
  rw [h, find?_eq_some_iff.mpr hother] at hfound
  exact Prod.ext h (Option.some.inj hfound).symm

theorem mem_of_listed? (h : t.listed? name = some entry) :
    entry ∈ t.entries ∧ Text.sameLetters entry.1 name = true := by
  rcases Option.or_eq_some_iff.mp h with hexact | ⟨-, hcase⟩
  · have hname := List.find?_some hexact
    refine ⟨List.mem_of_find?_eq_some hexact, ?_⟩
    rw [eq_of_beq hname]
    exact Text.sameLetters_self _
  · have hname := List.find?_some hcase
    exact ⟨List.mem_of_find?_eq_some hcase, hname⟩

theorem listed?_eq_none_iff : t.listed? name = none ↔ ∀ entry ∈ t.entries, Text.sameLetters entry.1 name ≠ true := by
  rw [listed?, Option.or_eq_none_iff, List.find?_eq_none, List.find?_eq_none, and_iff_right_iff_imp]
  intro h entry hentry hname
  refine h entry hentry ?_
  rw [eq_of_beq hname]
  exact Text.sameLetters_self _

theorem listed?_self (h : entry ∈ t.entries) : t.listed? entry.1 = some entry := by
  cases hexact : t.entries.find? fun other => other.1 == entry.1 with
  | none => exact absurd (beq_self_eq_true entry.1) (List.find?_eq_none.mp hexact entry h)
  | some other =>
    have hname := List.find?_some hexact
    rw [listed?, hexact, Option.some_or, eq_of_name_eq (List.mem_of_find?_eq_some hexact) h (eq_of_beq hname)]

theorem key?_eq (t : CategoryTable) (name : String) : t.key? name = (t.listed? (Text.trimmed name)).map (·.1) := by
  simp only [key?, listed?, List.find?_map, Option.map_or, Function.comp_def]

theorem get?_eq (t : CategoryTable) (name : String) : t.get? name = (t.listed? (Text.trimmed name)).map (·.2) := by
  rw [get?, key?_eq]
  cases h : t.listed? (Text.trimmed name) with
  | none => rfl
  | some entry => exact find?_eq_some_iff.mpr (mem_of_listed? h).1

/-- Under its own name an entry is found itself exactly if nothing is trimmed off the name. -/
theorem listed?_trimmed_iff (h : entry ∈ t.entries) :
    t.listed? (Text.trimmed entry.1) = some entry ↔ Text.trimmed entry.1 = entry.1 := by
  constructor
  · intro hlisted
    have hlength := congrArg List.length (Text.sameLetters_iff.mp (mem_of_listed? hlisted).2)
    rw [List.length_map, List.length_map, Text.toList_trimmed] at hlength
    rw [Text.trimmed, (Text.trim_sublist entry.1.toList).eq_of_length hlength.symm, String.ofList_toList]
  · intro hname
    rw [hname, listed?_self h]

/-! ### Names that are answered to -/

/-- The entries that answer to a name: theirs agree with it, up to letter case, once it is trimmed. -/
def answering (t : CategoryTable) (name : String) : List (String × Category) :=
  t.entries.filter fun entry => Text.sameLetters entry.1 (Text.trimmed name)

theorem mem_answering :
    entry ∈ t.answering name ↔ entry ∈ t.entries ∧ Text.sameLetters entry.1 (Text.trimmed name) = true :=
  List.mem_filter

theorem mem_answering_of_listed? (h : t.listed? (Text.trimmed name) = some entry) : entry ∈ t.answering name :=
  mem_answering.mpr (mem_of_listed? h)

theorem answering_eq_singleton_iff :
    t.answering name = [entry] ↔ ∀ other, other ∈ t.answering name ↔ other = entry := by
  have hnodup : (t.answering name).Nodup := (t.sorted.imp fun hlt heq => by
    rw [heq] at hlt
    exact String.lt_irrefl _ hlt).filter _
  rw [← List.perm_singleton, List.perm_ext_iff_of_nodup hnodup (List.nodup_singleton entry)]
  simp only [List.mem_singleton]

theorem get?_eq_none_iff : t.get? q = none ↔ ∀ entry, entry ∉ t.answering q := by
  rw [get?_eq, Option.map_eq_none_iff, listed?_eq_none_iff]
  simp only [mem_answering, not_and]

/-- Once a name is removed nothing is found under any spelling of it, exactly if at most one entry answered to it. -/
theorem get?_remove_eq_none_iff : (∀ q, SameName name q → (t.remove name).get? q = none) ↔
    ∀ entry ∈ t.answering name, ∀ other ∈ t.answering name, entry = other := by
  constructor
  · intro hgone entry hentry other hother
    have hkey : ∀ x ∈ t.answering name, t.key? name = some x.1 := fun x hx => by
      obtain ⟨hmem, hname⟩ := mem_answering.mp hx
      by_contra hkey
      have hnone := get?_eq_none_iff.mp (hgone name (Text.sameLetters_self _))
      exact hnone x (mem_answering.mpr ⟨mem_remove.mpr ⟨hmem, hkey⟩, hname⟩)
    refine eq_of_name_eq (mem_answering.mp hentry).1 (mem_answering.mp hother).1 (Option.some.inj ?_)
    rw [← hkey entry hentry, hkey other hother]
  · intro hone q hsame
    refine get?_eq_none_iff.mpr fun x hx => ?_
    obtain ⟨hleft, hname⟩ := mem_answering.mp hx
    obtain ⟨hmem, hkey⟩ := mem_remove.mp hleft
    have hanswers : x ∈ t.answering name :=
      mem_answering.mpr ⟨hmem, Text.sameLetters_trans hname (Text.sameLetters_comm hsame)⟩
    rw [key?_eq] at hkey
    cases hentry : t.listed? (Text.trimmed name) with
    | none => exact listed?_eq_none_iff.mp hentry x hmem (mem_answering.mp hanswers).2
    | some entry =>
      rw [hentry, hone x hanswers entry (mem_answering_of_listed? hentry)] at hkey
      exact hkey rfl

/-! ### Categories that respond -/

/-- A category is found under the name it is listed by and, once that name is removed, under no spelling of it. -/
def Responds (t : CategoryTable) (entry : String × Category) : Prop :=
  t.get? entry.1 = some entry.2 ∧ ∀ q, SameName entry.1 q → (t.remove entry.1).get? q = none

theorem responds_iff :
    t.Responds entry ↔ ∃ other, t.answering entry.1 = [other] ∧ other.2 = entry.2 := by
  simp only [Responds, get?_remove_eq_none_iff, answering_eq_singleton_iff]
  rw [get?_eq, Option.map_eq_some_iff]
  constructor
  · rintro ⟨⟨other, hother, hsettings⟩, hone⟩
    have hanswers := mem_answering_of_listed? hother
    exact ⟨other, fun x => ⟨fun hx => hone x hx other hanswers, fun hx => hx ▸ hanswers⟩, hsettings⟩
  · rintro ⟨other, hiff, hsettings⟩
    refine ⟨?_, fun x hx y hy => ((hiff x).mp hx).trans ((hiff y).mp hy).symm⟩
    cases hfound : t.listed? (Text.trimmed entry.1) with
    | none =>
      obtain ⟨hmem, hname⟩ := mem_answering.mp ((hiff other).mpr rfl)
      exact absurd hname (listed?_eq_none_iff.mp hfound other hmem)
    | some found =>
      obtain rfl := (hiff found).mp (mem_answering_of_listed? hfound)
      exact ⟨found, rfl, hsettings⟩

theorem Tidy.responds (ht : t.Tidy) (hentry : entry ∈ t.entries) : t.Responds entry := by
  refine responds_iff.mpr ⟨entry, answering_eq_singleton_iff.mpr fun other => ?_, rfl⟩
  rw [mem_answering, ht.trimmed entry hentry]
  constructor
  · rintro ⟨hother, hsame⟩
    exact ht.apart other hother entry hentry hsame
  · rintro rfl
    exact ⟨hentry, Text.sameLetters_self _⟩

/-- However a table came about that is accepted, and whatever is set and removed in it, it stays accepted; and a
    category is found and removed by the name it is listed under exactly if one entry alone answers to that name, and
    that one has the same settings. That entry is never the category itself if its name has blanks around it. Where the
    names of the table at first are trimmed and differ in more than letter case, every category responds. -/
theorem responds_run (h : t.validate = .ok ()) (calls : List Call) :
    let u := t.run calls
    u.validate = .ok () ∧
    (∀ entry ∈ u.entries,
      (u.Responds entry ↔ ∃ other, u.answering entry.1 = [other] ∧ other.2 = entry.2) ∧
      (u.listed? (Text.trimmed entry.1) = some entry ↔ Text.trimmed entry.1 = entry.1)) ∧
    (t.Tidy → ∀ entry ∈ u.entries, u.Responds entry) := by
  intro u
  have hvalid : u.Valid := (validate_eq_ok_iff.mp h).run calls
  exact ⟨validate_eq_ok_iff.mpr hvalid, fun entry hentry => ⟨responds_iff, listed?_trimmed_iff hentry⟩,
    fun ht entry hentry => (ht.run calls).responds hentry⟩

/-- A category is set, and responds; one whose name has blanks around it does not, nor do two spellings of a name. -/
theorem responds_run_mixed :
    let t := ofList [(" Audit ", ⟨some .blue, true⟩), ("Note", ⟨none, false⟩), ("note", ⟨some .red, false⟩)]
    let u := t.run [.set " Job " ⟨some .cyan, false⟩, .remove "Audit"]
    u.Responds ("Job", ⟨some .cyan, false⟩) ∧ ¬u.Responds (" Audit ", ⟨some .blue, true⟩) ∧
      ¬u.Responds ("Note", ⟨none, false⟩) := by
  intro t u
  have hvalid : t.validate = .ok () := by decide
  have hiff := (responds_run hvalid [.set " Job " ⟨some .cyan, false⟩, .remove "Audit"]).2.1
  refine ⟨(hiff _ (by decide)).1.mpr ⟨("Job", ⟨some .cyan, false⟩), by decide, rfl⟩, fun h => ?_, fun h => ?_⟩
  · obtain ⟨other, hother, -⟩ := (hiff _ (by decide)).1.mp h
    have hnone : u.answering " Audit " = [] := by decide
    rw [hnone] at hother
    cases hother
  · obtain ⟨other, hother, -⟩ := (hiff _ (by decide)).1.mp h
    have hboth : (u.answering "Note").length = 2 := by decide
    rw [hother] at hboth
    cases hboth

/-- A table that is accepted lists a category under a name with blanks around it, and it is not found; another lists
    two spellings of a name, and once the one is removed the other is found in its place. -/
theorem not_responds_as_given :
    let padded := ofList [(" Audit ", ⟨some .blue, false⟩)]
    let spelled := ofList [("Audit", ⟨some .blue, false⟩), ("audit", ⟨some .red, false⟩)]
    (padded.validate = .ok () ∧ (" Audit ", ⟨some .blue, false⟩) ∈ padded.entries ∧ padded.get? " Audit " = none) ∧
      spelled.validate = .ok () ∧ ("Audit", ⟨some .blue, false⟩) ∈ spelled.entries ∧
      (spelled.remove "Audit").get? "Audit" = some ⟨some .red, false⟩ := by
  decide

end

end CategoryTable
end Logbook
