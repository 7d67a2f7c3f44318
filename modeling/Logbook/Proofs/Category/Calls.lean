import Mathlib.Data.List.Induction
import Mathlib.Data.Set.Card
import Logbook.Proofs.Category.Tidy

/-! A table of categories as a map from names, where names count up to blanks around them and letter case. What is
    found under a name is told from the calls alone: the last one for that name decides, and a later default takes
    over. Main statement: after any calls the table is just that map, with one entry for every name in it. -/

namespace Logbook

namespace CategoryTable

/-! ### Calls -/

/-- A change of a table. -/
inductive Call where
  | set (name : String) (category : Category)
  | remove (name : String)

namespace Call

def name : Call → String
  | .set name _ => name
  | .remove name => name

/-- What is found under the name after the call. -/
def category? : Call → Option Category
  | .set _ category => some category
  | .remove _ => none

/-- The call is met: it does not set a category with a blank name. -/
def Succeeds : Call → Prop
  | .set name _ => Text.trimmed name ≠ ""
  | .remove _ => True

/-- The call sets a default, which takes over from any other. -/
def SetsDefault : Call → Prop
  | .set name category => Text.trimmed name ≠ "" ∧ category.isDefault = true
  | .remove _ => False

instance (call : Call) : Decidable call.SetsDefault :=
  match call with
  | .set name category => inferInstanceAs (Decidable (Text.trimmed name ≠ "" ∧ category.isDefault = true))
  | .remove _ => .isFalse id

end Call

def perform (t : CategoryTable) : Call → Except Error CategoryTable
  | .set name category => t.set name category
  | .remove name => .ok (t.remove name)

/-- The table after a call; one that fails changes nothing. -/
def step (t : CategoryTable) (call : Call) : CategoryTable :=
  match t.perform call with
  | .ok u => u
  | .error _ => t

def run (t : CategoryTable) (calls : List Call) : CategoryTable :=
  calls.foldl step t

end CategoryTable

/-- A category after further calls for other names: it is no default any more if one of them sets another. -/
def Category.after (c : Category) (later : List CategoryTable.Call) : Category :=
  ⟨c.color, c.isDefault && !later.any fun call => decide call.SetsDefault⟩

namespace CategoryTable

/-! ### The last call for a name -/

/-- Of the calls for name `q` that succeed, `call` is the last; the calls after it are for other names, or fail. -/
structure LastFor (q : String) (calls : List Call) (call : Call) (later : List Call) : Prop where
  split : ∃ earlier, calls = earlier ++ call :: later
  succeeds : call.Succeeds
  named : SameName call.name q
  last : ∀ other ∈ later, other.Succeeds → ¬SameName other.name q

/-- The last call for the name set a category. -/
def Live (calls : List Call) (q : String) : Prop :=
  ∃ name category later, LastFor q calls (.set name category) later

/-! ### One call -/

theorem Call.succeeds_of_setsDefault {call : Call} (h : call.SetsDefault) : call.Succeeds := by
  cases call with
  | set name category => exact h.1
  | remove name => exact h.elim

theorem after_of_not_setsDefault {call : Call} (h : ¬call.SetsDefault) (c : Category) : c.after [call] = c := by
  simp [Category.after, h]

theorem after_set {name : String} (h : Text.trimmed name ≠ "") (new c : Category) :
    c.after [.set name new] = c.beside new := by
  simp [Category.after, Category.beside, Call.SetsDefault, h]

section
variable {t : CategoryTable} {call : Call} {q : String}

theorem perform_eq_ok_iff : (∃ u, t.perform call = .ok u) ↔ call.Succeeds := by
  cases call with
  | remove name => exact ⟨fun _ => trivial, fun _ => ⟨_, rfl⟩⟩
  | set name category =>
    constructor
    · rintro ⟨u, hu⟩
      exact Text.isBlankText_eq_false_iff.mp (set_eq_ok hu).1
    · intro hname
      cases hset : t.set name category with
      | ok u => exact ⟨u, hset⟩
      | error e =>
        have hblank := (set_eq_error_iff.mp hset).1
        rw [Text.isBlankText_eq_false_iff.mpr hname] at hblank
        cases hblank

theorem step_of_not_succeeds (h : ¬call.Succeeds) : t.step call = t := by
  rw [step]
  split
  · next u hu => exact absurd (perform_eq_ok_iff.mp ⟨u, hu⟩) h
  · rfl

theorem step_set {name : String} {category : Category} {u : CategoryTable} (h : t.set name category = .ok u) :
    t.step (.set name category) = u := by
  rw [step, perform, h]

/-- A call that succeeds sets a category or removes one. -/
theorem step_cases (h : call.Succeeds) :
    (∃ name category u, call = .set name category ∧ t.set name category = .ok u ∧ t.step call = u) ∨
    ∃ name, call = .remove name ∧ t.step call = t.remove name := by
  cases call with
  | set name category =>
    obtain ⟨u, hu⟩ := perform_eq_ok_iff.mpr h
    exact Or.inl ⟨name, category, u, rfl, hu, step_set hu⟩
  | remove name => exact Or.inr ⟨name, rfl, rfl⟩

namespace Tidy

theorem get?_step_of_same (ht : t.Tidy) (hcall : call.Succeeds) (hsame : SameName call.name q) :
    (t.step call).get? q = call.category? := by
  rcases step_cases (t := t) hcall with ⟨name, category, u, rfl, hset, hstep⟩ | ⟨name, rfl, hstep⟩
  · rw [hstep, ht.get?_set hset]
    exact if_pos hsame
  · rw [hstep, ht.get?_remove]
    exact if_pos hsame

theorem get?_step_of_other (ht : t.Tidy) (hother : call.Succeeds → ¬SameName call.name q) :
    (t.step call).get? q = (t.get? q).map (·.after [call]) := by
  by_cases hcall : call.Succeeds
  · have hne := hother hcall
    rcases step_cases (t := t) hcall with ⟨name, category, u, rfl, hset, hstep⟩ | ⟨name, rfl, hstep⟩
    · simp only [hstep, ht.get?_set hset, after_set hcall]
      exact if_neg hne
    · have hnot : ¬(Call.remove name).SetsDefault := id
      rw [hstep, ht.get?_remove]
      simp only [after_of_not_setsDefault hnot, Option.map_id']
      exact if_neg hne
  · have hnot : ¬call.SetsDefault := mt Call.succeeds_of_setsDefault hcall
    simp only [step_of_not_succeeds hcall, after_of_not_setsDefault hnot, Option.map_id']

end Tidy
end

/-! ### Many calls -/

theorem run_concat (t : CategoryTable) (calls : List Call) (new : Call) :
    t.run (calls ++ [new]) = (t.run calls).step new := by
  rw [run, List.foldl_concat, ← run]

/-- What holds of a table and is kept by setting and removing holds after any calls. -/
theorem run_induction {P : CategoryTable → Prop} {t : CategoryTable} (ht : P t)
    (hset : ∀ {t u : CategoryTable} {name : String} {category : Category}, P t → t.set name category = .ok u → P u)
    (hremove : ∀ {t : CategoryTable} (name : String), P t → P (t.remove name)) (calls : List Call) :
    P (t.run calls) := by
  induction calls using List.reverseRecOn with
  | nil => exact ht
  | append_singleton calls new ih =>
    rw [run_concat]
    by_cases hnew : new.Succeeds
    · rcases step_cases (t := t.run calls) hnew with ⟨name, category, u, -, hu, hstep⟩ | ⟨name, -, hstep⟩
      · exact hstep ▸ hset ih hu
      · exact hstep ▸ hremove name ih
    · rwa [step_of_not_succeeds hnew]

theorem Tidy.run {t : CategoryTable} (ht : t.Tidy) (calls : List Call) : (t.run calls).Tidy :=
  run_induction ht Tidy.set (fun name ht => ht.remove name) calls

theorem Valid.run {t : CategoryTable} (ht : t.Valid) (calls : List Call) : (t.run calls).Valid :=
  run_induction ht Valid.set (fun name ht => ht.remove name) calls

theorem tidy_run (calls : List Call) : (run ∅ calls).Tidy :=
  Tidy.run ⟨fun entry h => (by cases h), fun entry h => (by cases h)⟩ calls

theorem valid_calls (calls : List Call) : (run ∅ calls).Valid :=
  Valid.run ⟨fun entry h => (by cases h), fun entry h => (by cases h)⟩ calls

section
variable {calls later : List Call} {call new : Call} {q : String}

theorem not_lastFor_nil : ¬LastFor q [] call later := by
  rintro ⟨⟨earlier, h⟩, -, -, -⟩
  simp at h

theorem lastFor_concat_of_same (hnew : new.Succeeds) (hsame : SameName new.name q) :
    LastFor q (calls ++ [new]) call later ↔ call = new ∧ later = [] := by
  constructor
  · rintro ⟨⟨earlier, h⟩, -, -, hlast⟩
    rcases List.eq_nil_or_concat later with rfl | ⟨before, other, rfl⟩
    · obtain ⟨-, heq⟩ := List.append_inj' h rfl
      exact ⟨(List.singleton_inj.mp heq).symm, rfl⟩
    · rw [List.concat_eq_append, ← List.cons_append, ← List.append_assoc] at h
      obtain rfl := List.singleton_inj.mp (List.append_inj' h rfl).2
      exact absurd hsame (hlast new (by simp) hnew)
  · rintro ⟨rfl, rfl⟩
    exact ⟨⟨calls, rfl⟩, hnew, hsame, fun other h => (by cases h)⟩

theorem lastFor_concat_of_other (hother : new.Succeeds → ¬SameName new.name q) :
    LastFor q (calls ++ [new]) call later ↔ ∃ before, later = before ++ [new] ∧ LastFor q calls call before := by
  constructor
  · rintro ⟨⟨earlier, h⟩, hcall, hnamed, hlast⟩
    rcases List.eq_nil_or_concat later with rfl | ⟨before, other, rfl⟩
    · obtain rfl := List.singleton_inj.mp (List.append_inj' h rfl).2
      exact absurd hnamed (hother hcall)
    · rw [List.concat_eq_append, ← List.cons_append, ← List.append_assoc] at h
      obtain ⟨hcalls, heq⟩ := List.append_inj' h rfl
      obtain rfl := List.singleton_inj.mp heq
      refine ⟨before, by simp, ⟨earlier, hcalls⟩, hcall, hnamed, fun x hx => hlast x (by simp [hx])⟩
  · rintro ⟨before, rfl, ⟨earlier, rfl⟩, hcall, hnamed, hlast⟩
    refine ⟨⟨earlier, by simp⟩, hcall, hnamed, fun x hx => ?_⟩
    rcases List.mem_append.mp hx with hx | hx
    · exact hlast x hx
    · rw [List.mem_singleton.mp hx]
      exact hother

theorem after_concat (c : Category) : c.after (later ++ [new]) = (c.after later).after [new] := by
  simp [Category.after, Bool.and_assoc]

/-- What is found under a name is what the last call for it set, if it set anything. -/
theorem get?_run {found : Category} : (run ∅ calls).get? q = some found ↔
    ∃ name category later, LastFor q calls (.set name category) later ∧ found = category.after later := by
  -- The induction is on the last call: it is for this name, or it is one more of those that came later.
  induction calls using List.reverseRecOn generalizing found with
  | nil => simp [run, get?, key?, not_lastFor_nil, show (∅ : CategoryTable).entries = [] from rfl]
  | append_singleton calls new ih =>
    rw [run_concat]
    by_cases hsame : new.Succeeds ∧ SameName new.name q
    · rw [(tidy_run calls).get?_step_of_same hsame.1 hsame.2]
      simp only [lastFor_concat_of_same hsame.1 hsame.2]
      cases new with
      | set name category => simp [Call.category?, Category.after, eq_comm]
      | remove name => simp [Call.category?]
    · have hother : new.Succeeds → ¬SameName new.name q := not_and.mp hsame
      rw [(tidy_run calls).get?_step_of_other hother, Option.map_eq_some_iff]
      simp only [lastFor_concat_of_other hother, ih]
      constructor
      · rintro ⟨old, ⟨name, category, before, hlast, rfl⟩, rfl⟩
        exact ⟨name, category, _, ⟨before, rfl, hlast⟩, (after_concat category).symm⟩
      · rintro ⟨name, category, _, ⟨before, rfl, hlast⟩, rfl⟩
        exact ⟨_, ⟨name, category, before, hlast, rfl⟩, (after_concat category).symm⟩

theorem live_iff : Live calls q ↔ ∃ found, (run ∅ calls).get? q = some found := by
  simp only [get?_run]
  exact ⟨fun ⟨name, category, later, hlast⟩ => ⟨_, name, category, later, hlast, rfl⟩,
    fun ⟨_, name, category, later, hlast, _⟩ => ⟨name, category, later, hlast⟩⟩

end

/-! ### The whole table -/

theorem eq_after_iff {c found : Category} {later : List Call} : found = c.after later ↔
    found.color = c.color ∧
      (found.isDefault = true ↔ c.isDefault = true ∧ ∀ other ∈ later, ¬other.SetsDefault) := by
  obtain ⟨color, isDefault⟩ := found
  rw [Category.after, Category.mk.injEq]
  refine and_congr_right fun _ => ?_
  rw [Bool.eq_iff_iff]
  simp

theorem mem_letters_iff {calls : List Call} {letters : List Char} :
    letters ∈ (run ∅ calls).entries.map (fun entry => lettersOf entry.1) ↔
      ∃ q, Live calls q ∧ lettersOf q = letters := by
  have ht := tidy_run calls
  simp only [live_iff, ht.get?_eq_some_iff, List.mem_map]
  constructor
  · rintro ⟨entry, hentry, rfl⟩
    have hsame := (ht.sameName_iff_sameLetters hentry _).mp (Text.sameLetters_self _)
    exact ⟨entry.1, ⟨entry.2, entry.1, hentry, hsame⟩, rfl⟩
  · rintro ⟨q, ⟨found, key, hentry, hkey⟩, rfl⟩
    exact ⟨(key, found), hentry, sameName_iff.mp ((ht.sameName_iff_sameLetters hentry q).mpr hkey)⟩

/-- A table is a map from names, where blanks around a name and letter case do not count. Only a call that sets a
    category with a blank name fails, and it changes nothing. What is found under a name is what the last call for
    it set, a default only as long as no later call sets one. The table has as many entries as there are names of
    that kind; no two of its names agree or have blanks around them, and its default is the only category that is
    found to be one. -/
theorem run_refines_map (calls : List Call) :
    let t := run ∅ calls
    (∀ call, ((∃ u, t.perform call = .ok u) ↔ call.Succeeds) ∧ (¬call.Succeeds → t.step call = t)) ∧
    (∀ q found, t.get? q = some found ↔
      ∃ name category later, LastFor q calls (.set name category) later ∧ found.color = category.color ∧
        (found.isDefault = true ↔ category.isDefault = true ∧ ∀ other ∈ later, ¬other.SetsDefault)) ∧
    t.size = {letters | ∃ q, Live calls q ∧ lettersOf q = letters}.ncard ∧
    (t.entries.Pairwise fun a b => Text.sameLetters a.1 b.1 = false) ∧
    (∀ entry ∈ t.entries, Text.trimmed entry.1 = entry.1) ∧
    ∀ q, (∃ found, t.get? q = some found ∧ found.isDefault = true) ↔
      ∃ name, t.default? = some name ∧ SameName name q := by
  intro t
  have ht : t.Tidy := tidy_run calls
  refine ⟨fun call => ⟨perform_eq_ok_iff, step_of_not_succeeds⟩, fun q found => ?_, ?_, ?_, ht.trimmed,
    ht.default?_iff (valid_calls calls)⟩
  · simp only [← eq_after_iff]
    exact get?_run
  · have hletters : {letters | ∃ q, Live calls q ∧ lettersOf q = letters} =
        ↑(t.entries.map fun entry => lettersOf entry.1).toFinset := by
      ext letters
      rw [Set.mem_ofPred_eq, ← mem_letters_iff, Finset.mem_coe, List.mem_toFinset]
    rw [hletters, Set.ncard_coe_finset, List.toFinset_card_of_nodup ht.nodup_letters, List.length_map, size]
  · refine t.sorted.imp_of_mem fun {a b} ha hb hlt => ?_
    by_contra hsame
    have heq := ht.apart a ha b hb (by simpa using hsame)
    exact String.lt_irrefl _ (heq ▸ hlt)

end CategoryTable
end Logbook
