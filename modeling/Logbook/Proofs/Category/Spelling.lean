import Logbook.Proofs.Category.Calls
import Logbook.Routing

/-! The spelling under which a category is listed. A category that is set again keeps its place in the table by its
    letters, but its entry is made anew under the name of that call. Main statement: every entry is listed under the
    name that it was last set under, and so the name it was first set under stays exactly where all later ones agree. -/

namespace Logbook
namespace CategoryTable

/-- Of the calls for name `q`, the one that set `first` is the first since there was last nothing under the name. -/
structure FirstFor (q : String) (calls : List Call) (first : String) : Prop where
  since : ∃ earlier category later, calls = earlier ++ .set first category :: later ∧ ¬Live earlier q ∧
    ∀ name, .remove name ∈ later → ¬SameName name q
  named : SameName first q
  nonblank : Text.trimmed first ≠ ""

/-- What a message shows as its category that asks for none, or for a blank one. -/
def shownByDefault (t : CategoryTable) (c : Context) (asked : Option String) : String :=
  Template.tokenText { c with category := Plan.categoryOf asked t } .category

/-- Every category is listed under the name that it was first set under since it was last absent. If it is the default,
    the table reports it by that name, and so does every message without a category. -/
def KeepsFirst (calls : List Call) : Prop :=
  let t := run ∅ calls
  ∀ q first, FirstFor q calls first → ∃ found, (Text.trimmed first, found) ∈ t.entries ∧
    (found.isDefault = true → t.default? = some (Text.trimmed first) ∧
      ∀ c asked, (∀ name ∈ asked, Text.isBlankText name = true) → t.shownByDefault c asked = Text.trimmed first)

section
variable {t : CategoryTable} {calls : List Call} {new : Call} {q first : String} {entry : String × Category}

/-! ### Entries after calls -/

theorem Tidy.mem_step_of_same (ht : t.Tidy) (hnew : new.Succeeds) (hsame : SameName new.name entry.1) :
    entry ∈ (t.step new).entries ↔
      ∃ name category, new = .set name category ∧ entry = (Text.trimmed name, category) := by
  have hletters : ∀ old ∈ t.entries, old.1 = entry.1 → Text.sameLetters old.1 (Text.trimmed new.name) = true := by
    intro old hold hname
    refine Text.sameLetters_comm ?_
    rw [SameName, ← hname, ht.trimmed old hold] at hsame
    exact hsame
  rcases step_cases (t := t) hnew with ⟨name, category, u, rfl, hset, hstep⟩ | ⟨name, rfl, hstep⟩
  · rw [hstep, ht.mem_set_iff hset]
    constructor
    · rintro (hentry | ⟨old, hold, hother, hentry⟩)
      · exact ⟨name, category, rfl, hentry⟩
      · exact absurd (hletters old hold (congrArg Prod.fst hentry).symm) hother
    · rintro ⟨name', category', hcall, hentry⟩
      cases hcall
      exact Or.inl hentry
  · rw [hstep, ht.mem_remove_iff]
    constructor
    · rintro ⟨hentry, hother⟩
      exact absurd (hletters entry hentry rfl) hother
    · rintro ⟨name', category', hcall, -⟩
      cases hcall

theorem Tidy.mem_step_of_other (ht : t.Tidy) (hother : new.Succeeds → ¬SameName new.name entry.1) :
    entry ∈ (t.step new).entries ↔ ∃ found, (entry.1, found) ∈ t.entries ∧ entry.2 = found.after [new] := by
  by_cases hnew : new.Succeeds
  · have hne : ∀ found, (entry.1, found) ∈ t.entries → Text.sameLetters entry.1 (Text.trimmed new.name) ≠ true := by
      intro found hfound hsame
      have hnamed := (ht.sameName_iff_sameLetters hfound new.name).mpr hsame
      exact hother hnew (Text.sameLetters_comm hnamed)
    rcases step_cases (t := t) hnew with ⟨name, category, u, rfl, hset, hstep⟩ | ⟨name, rfl, hstep⟩
    · simp only [hstep, ht.mem_set_iff hset, after_set hnew]
      constructor
      · rintro (rfl | ⟨old, hold, -, rfl⟩)
        · refine absurd ?_ (hother hnew)
          rw [SameName, Text.trimmed_trimmed]
          exact Text.sameLetters_self _
        · exact ⟨old.2, hold, rfl⟩
      · rintro ⟨found, hfound, hentry⟩
        exact Or.inr ⟨(entry.1, found), hfound, hne found hfound, Prod.ext rfl hentry⟩
    · have hnot : ¬(Call.remove name).SetsDefault := id
      simp only [hstep, ht.mem_remove_iff, after_of_not_setsDefault hnot]
      constructor
      · rintro ⟨hentry, -⟩
        exact ⟨entry.2, hentry, rfl⟩
      · rintro ⟨found, hfound, rfl⟩
        exact ⟨hfound, hne entry.2 hfound⟩
  · have hnot : ¬new.SetsDefault := mt Call.succeeds_of_setsDefault hnew
    simp only [step_of_not_succeeds hnew, after_of_not_setsDefault hnot]
    constructor
    · exact fun hentry => ⟨entry.2, hentry, rfl⟩
    · rintro ⟨found, hfound, rfl⟩
      exact hfound

/-- The entries are those of the last calls for their names, each under the name of that call. -/
theorem mem_run : entry ∈ (run ∅ calls).entries ↔ ∃ name category later,
    LastFor entry.1 calls (.set name category) later ∧ entry = (Text.trimmed name, category.after later) := by
  -- The induction is on the last call: it is for the name of this entry, or it is one more of those that came later.
  induction calls using List.reverseRecOn generalizing entry with
  | nil => simp [run, not_lastFor_nil, show (∅ : CategoryTable).entries = [] from rfl]
  | append_singleton calls new ih =>
    rw [run_concat]
    by_cases hsame : new.Succeeds ∧ SameName new.name entry.1
    · rw [(tidy_run calls).mem_step_of_same hsame.1 hsame.2]
      simp only [lastFor_concat_of_same hsame.1 hsame.2]
      constructor
      · rintro ⟨name, category, rfl, hentry⟩
        exact ⟨name, category, [], ⟨rfl, rfl⟩, by simpa [Category.after] using hentry⟩
      · rintro ⟨name, category, _, ⟨rfl, rfl⟩, hentry⟩
        exact ⟨name, category, rfl, by simpa [Category.after] using hentry⟩
    · have hother : new.Succeeds → ¬SameName new.name entry.1 := not_and.mp hsame
      rw [(tidy_run calls).mem_step_of_other hother]
      simp only [lastFor_concat_of_other hother, ih]
      constructor
      · rintro ⟨found, ⟨name, category, before, hlast, hfound⟩, hentry⟩
        obtain ⟨hname, rfl⟩ := Prod.mk.inj hfound
        exact ⟨name, category, _, ⟨before, rfl, hlast⟩, Prod.ext hname (hentry.trans (after_concat category).symm)⟩
      · rintro ⟨name, category, _, ⟨before, rfl, hlast⟩, hentry⟩
        obtain ⟨hname, hsettings⟩ := Prod.mk.inj (show (entry.1, entry.2) = _ from hentry)
        exact ⟨category.after before, ⟨name, category, before, hlast, Prod.ext hname rfl⟩,
          hsettings.trans (after_concat category)⟩

theorem default?_eq_some_iff {calls : List Call} {name : String} : (run ∅ calls).default? = some name ↔
    ∃ given category later, LastFor name calls (.set given category) later ∧ name = Text.trimmed given ∧
      category.isDefault = true ∧ ∀ other ∈ later, ¬other.SetsDefault := by
  have hentries : (run ∅ calls).default? = some name ↔
      ∃ found, (name, found) ∈ (run ∅ calls).entries ∧ found.isDefault = true := by
    constructor
    · intro h
      obtain ⟨entry, hfind, rfl⟩ := Option.map_eq_some_iff.mp h
      have hdefault := List.find?_some hfind
      exact ⟨entry.2, List.mem_of_find?_eq_some hfind, hdefault⟩
    · rintro ⟨found, hfound, hdefault⟩
      exact (valid_calls calls).default?_eq_some hfound hdefault
  simp only [hentries, mem_run, Prod.mk.injEq]
  constructor
  · rintro ⟨_, ⟨given, category, later, hlast, hname, rfl⟩, hdefault⟩
    exact ⟨given, category, later, hlast, hname, (eq_after_iff.mp rfl).2.mp hdefault⟩
  · rintro ⟨given, category, later, hlast, hname, hdefault⟩
    exact ⟨_, ⟨given, category, later, hlast, hname, rfl⟩, (eq_after_iff.mp rfl).2.mpr hdefault⟩

/-! ### The first call for a name -/

theorem live_concat_of_same (hnew : new.Succeeds) (hsame : SameName new.name q) :
    Live (calls ++ [new]) q ↔ ∃ name category, new = .set name category := by
  simp only [Live, lastFor_concat_of_same hnew hsame]
  constructor
  · rintro ⟨name, category, later, rfl, -⟩
    exact ⟨name, category, rfl⟩
  · rintro ⟨name, category, rfl⟩
    exact ⟨name, category, [], rfl, rfl⟩

theorem live_concat_of_other (hother : new.Succeeds → ¬SameName new.name q) :
    Live (calls ++ [new]) q ↔ Live calls q := by
  simp only [Live, lastFor_concat_of_other hother]
  constructor
  · rintro ⟨name, category, _, before, -, hlast⟩
    exact ⟨name, category, before, hlast⟩
  · rintro ⟨name, category, before, hlast⟩
    exact ⟨name, category, _, before, rfl, hlast⟩

theorem FirstFor.concat (h : FirstFor q calls first) (hnew : ∀ name, new = .remove name → ¬SameName name q) :
    FirstFor q (calls ++ [new]) first := by
  obtain ⟨⟨earlier, category, later, rfl, habsent, hkept⟩, hnamed, hnonblank⟩ := h
  refine ⟨⟨earlier, category, later ++ [new], by simp, habsent, fun name hname => ?_⟩, hnamed, hnonblank⟩
  rcases List.mem_append.mp hname with hname | hname
  · exact hkept name hname
  · exact hnew name (List.mem_singleton.mp hname).symm

/-- A call that comes after the first one for a name is one of those that keep the category. -/
theorem FirstFor.of_concat (h : FirstFor q (calls ++ [new]) first) :
    (∃ category, new = .set first category) ∧ ¬Live calls q ∨
      FirstFor q calls first ∧ ∀ name, new = .remove name → ¬SameName name q := by
  obtain ⟨⟨earlier, category, later, h, habsent, hkept⟩, hnamed, hnonblank⟩ := h
  rcases List.eq_nil_or_concat later with rfl | ⟨before, last, rfl⟩
  · obtain ⟨rfl, hlast⟩ := List.append_inj' h rfl
    exact Or.inl ⟨⟨category, List.singleton_inj.mp hlast⟩, habsent⟩
  · rw [List.concat_eq_append, ← List.cons_append, ← List.append_assoc] at h
    obtain ⟨rfl, hlast⟩ := List.append_inj' h rfl
    obtain rfl := List.singleton_inj.mp hlast
    refine Or.inr ⟨⟨⟨earlier, category, before, rfl, habsent, fun name hname => hkept name (by simp [hname])⟩,
      hnamed, hnonblank⟩, ?_⟩
    rintro name rfl
    exact hkept name (by simp)

/-- There is a first call for a name exactly while something is found under it. -/
theorem live_iff_firstFor : Live calls q ↔ ∃ first, FirstFor q calls first := by
  -- The induction is on the last call, which is for this name, or leaves what is found under it alone.
  induction calls using List.reverseRecOn with
  | nil =>
    refine iff_of_false (fun ⟨_, _, _, hlast⟩ => not_lastFor_nil hlast) ?_
    rintro ⟨first, ⟨earlier, category, later, h, -⟩, -⟩
    simp at h
  | append_singleton calls new ih =>
    by_cases hsame : new.Succeeds ∧ SameName new.name q
    · rw [live_concat_of_same hsame.1 hsame.2]
      constructor
      · rintro ⟨name, category, rfl⟩
        by_cases hlive : Live calls q
        · obtain ⟨first, hfirst⟩ := ih.mp hlive
          exact ⟨first, hfirst.concat fun name h => by cases h⟩
        · exact ⟨name, ⟨calls, category, [], rfl, hlive, fun name h => by cases h⟩, hsame.2, hsame.1⟩
      · rintro ⟨first, hfirst⟩
        rcases hfirst.of_concat with ⟨⟨category, rfl⟩, -⟩ | ⟨-, hkept⟩
        · exact ⟨first, category, rfl⟩
        · cases new with
          | set name category => exact ⟨name, category, rfl⟩
          | remove name => exact absurd hsame.2 (hkept name rfl)
    · have hother : new.Succeeds → ¬SameName new.name q := not_and.mp hsame
      rw [live_concat_of_other hother, ih]
      constructor
      · rintro ⟨first, hfirst⟩
        refine ⟨first, hfirst.concat ?_⟩
        rintro name rfl
        exact hother trivial
      · rintro ⟨first, hfirst⟩
        rcases hfirst.of_concat with ⟨⟨category, rfl⟩, -⟩ | ⟨hfirst, -⟩
        · exact absurd hfirst.named (hother hfirst.nonblank)
        · exact ⟨first, hfirst⟩

/-! ### The name that is shown -/

/-- A message without a category shows the name of the default as it is listed, if there is one. -/
theorem shownByDefault_eq (ht : t.Tidy) (c : Context) {asked : Option String}
    (hasked : ∀ name ∈ asked, Text.isBlankText name = true) : t.shownByDefault c asked = t.default?.getD "" := by
  have hnone : (asked.map Text.trimmed).filter (· != "") = none := by
    rw [Option.filter_eq_none_iff]
    intro name hname
    obtain ⟨given, hgiven, rfl⟩ := Option.map_eq_some_iff.mp hname
    simpa using Text.trimmed_eq_empty_iff.mpr (hasked given hgiven)
  have hcategory : Plan.categoryOf asked t = t.default?.getD "" := congrArg (·.getD (t.default?.getD "")) hnone
  show Text.trimmed (Plan.categoryOf asked t) = t.default?.getD ""
  rw [hcategory]
  cases hdefault : t.default? with
  | none => rfl
  | some name =>
    obtain ⟨entry, hfind, rfl⟩ := Option.map_eq_some_iff.mp hdefault
    exact ht.trimmed entry (List.mem_of_find?_eq_some hfind)

/-- A category is listed under the name of the last call that set it, and there it has the settings of that call; so the
    table reports its default by the name that it was last set under, and every message without a category shows that
    name. The name that a category was first set under since it was last absent is kept exactly if, trimmed, it is also
    the name that it was last set under; and every category has such a first name. -/
theorem keepsFirst_iff (calls : List Call) :
    let t := run ∅ calls
    (∀ entry, entry ∈ t.entries ↔ ∃ name category later,
      LastFor entry.1 calls (.set name category) later ∧ entry = (Text.trimmed name, category.after later)) ∧
    (∀ name, t.default? = some name ↔ ∃ given category later, LastFor name calls (.set given category) later ∧
      name = Text.trimmed given ∧ category.isDefault = true ∧ ∀ other ∈ later, ¬other.SetsDefault) ∧
    (∀ c asked, (∀ name ∈ asked, Text.isBlankText name = true) → t.shownByDefault c asked = t.default?.getD "") ∧
    (∀ q, Live calls q ↔ ∃ first, FirstFor q calls first) ∧
    (KeepsFirst calls ↔ ∀ q first name category later, FirstFor q calls first →
      LastFor q calls (.set name category) later → Text.trimmed first = Text.trimmed name) := by
  intro t
  have ht : t.Tidy := tidy_run calls
  refine ⟨fun entry => mem_run, fun name => default?_eq_some_iff, fun c asked => shownByDefault_eq ht c,
    fun q => live_iff_firstFor, ?_⟩
  -- What is listed for a last call, whichever name it is asked for by.
  have hlisted : ∀ {q name : String} {category : Category} {later : List Call},
      LastFor q calls (.set name category) later → (Text.trimmed name, category.after later) ∈ t.entries := by
    intro q name category later hlast
    refine mem_run.mpr ⟨name, category, later, ⟨hlast.split, hlast.succeeds, ?_, fun other hmem hcall hsame => ?_⟩, rfl⟩
    · rw [SameName, Call.name, Text.trimmed_trimmed]
      exact Text.sameLetters_self _
    · rw [SameName, Text.trimmed_trimmed] at hsame
      exact hlast.last other hmem hcall (Text.sameLetters_trans hsame hlast.named)
  constructor
  · intro hkeeps q first name category later hfirst hlast
    obtain ⟨found, hfound, -⟩ := hkeeps q first hfirst
    refine congrArg Prod.fst (ht.apart _ hfound _ (hlisted hlast) ?_)
    exact Text.sameLetters_trans hfirst.named (Text.sameLetters_comm hlast.named)
  · intro hsame q first hfirst
    obtain ⟨name, category, later, hlast⟩ := live_iff_firstFor.mpr ⟨first, hfirst⟩
    have hname := hsame q first name category later hfirst hlast
    refine ⟨category.after later, hname ▸ hlisted hlast, fun hdefault => ?_⟩
    have hreported : t.default? = some (Text.trimmed first) :=
      (valid_calls calls).default?_eq_some (hname ▸ hlisted hlast) hdefault
    refine ⟨hreported, fun c asked hasked => ?_⟩
    rw [shownByDefault_eq ht c hasked, hreported]
    rfl

/-- A category is set as "Audit" and then, to be red and the default, as "AUDIT": the table goes by the second name. -/
theorem not_keepsFirst_respelled :
    let calls : List Call := [.set "Audit" ⟨some .blue, false⟩, .set "AUDIT" ⟨some .red, true⟩]
    ¬KeepsFirst calls ∧ (run ∅ calls).entries = [("AUDIT", ⟨some .red, true⟩)] ∧
      (run ∅ calls).default? = some "AUDIT" := by
  intro calls
  refine ⟨fun hkeeps => ?_, by decide, by decide⟩
  have hfirst : FirstFor "Audit" calls "Audit" := by
    refine ⟨⟨[], _, _, rfl, ?_, fun name h => by simp at h⟩, by decide, by decide⟩
    rintro ⟨name, category, later, hlast⟩
    exact not_lastFor_nil hlast
  obtain ⟨found, hfound, -⟩ := hkeeps "Audit" "Audit" hfirst
  have hentries : (run ∅ calls).entries = [("AUDIT", ⟨some .red, true⟩)] := by decide
  rw [hentries] at hfound
  simp [show Text.trimmed "Audit" = "Audit" by decide] at hfound

end

end CategoryTable
end Logbook
