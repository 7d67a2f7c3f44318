import Mathlib.Data.List.Infix
import Logbook.Routing
import Logbook.Proofs.Text.Letters

/-! The names that severities and colors are found by. Main statements: a color is found exactly by its name, up to
    blanks around it and the case of its letters; a severity is found so by its name or its short form, and besides by
    either with a dotless i, a long s or a double f in the place of the letters that they look like. -/

namespace Logbook

variable {α : Type}

/-- The name is taken for those values that have it among their spellings, up to blanks around it and the case of ASCII
    letters, and is refused if no value has it. -/
structure FoundBySpelling (find : String → Except Error α) (spellings : α → List String) (refusal : String → Error)
    (name : String) : Prop where
  found : ∀ a, find name = .ok a ↔ ∃ n ∈ spellings a, Text.sameLetters n (Text.trimmed name) = true
  refused : (∀ a, ∀ n ∈ spellings a, Text.sameLetters n (Text.trimmed name) = false) → find name = .error (refusal name)

theorem FoundBySpelling.of_found {find : String → Except Error α} {spellings : α → List String}
    {refusal : String → Error} {name : String}
    (hfound : ∀ a, find name = .ok a ↔ ∃ n ∈ spellings a, Text.sameLetters n (Text.trimmed name) = true)
    (hrefused : ∀ e, find name = .error e → e = refusal name) : FoundBySpelling find spellings refusal name := by
  refine ⟨hfound, fun hnone => ?_⟩
  cases hname : find name with
  | error e => rw [hrefused e hname]
  | ok a =>
    obtain ⟨n, hn, hsame⟩ := (hfound a).mp hname
    rw [hnone a n hn] at hsame
    cases hsame

/-! ### Severities -/

namespace Severity

/-- The names of a severity: its own, and for some a short form. -/
def spellings : Severity → List String
  | .warning => ["Warning", "Warn"]
  | .information => ["Information", "Info"]
  | s => [s.name]

theorem plain_of_mem_spellings {s : Severity} {n : String} (h : n ∈ s.spellings) : Text.Plain n := by
  have hascii : (all.flatMap spellings).Forall fun n => (Text.lookalikes ++ Text.ligatures).Forall fun c =>
      c ∉ n.toList.map Char.toLower := by decide
  have hapart : (all.flatMap spellings).Forall fun n => Text.ligatures.Forall fun c =>
      ¬Text.capital c <:+: n.toList.map Char.toUpper := by decide
  have hmem : n ∈ all.flatMap spellings := List.mem_flatMap.mpr ⟨s, s.mem_all, h⟩
  simp only [List.forall_iff_forall_mem] at hascii hapart
  exact ⟨hascii n hmem, hapart n hmem⟩

/-- The upper-case form of the name is that of a spelling of the severity. -/
theorem ofName?_eq_some_iff {name : String} {s : Severity} : ofName? name = some s ↔
    ∃ n ∈ s.spellings, Text.capitals (Text.trim name.toList) = n.toList.map Char.toUpper := by
  simp only [ofName?, ← String.ofList_inj, Bool.or_eq_true, decide_eq_true_eq]
  generalize String.ofList (Text.capitals (Text.trim name.toList)) = form
  constructor
  · intro h
    split at h
    · next hoff => cases h; exact ⟨"Off", by decide, hoff⟩
    split at h
    · next herror => cases h; exact ⟨"Error", by decide, herror⟩
    split at h
    · next hwarning =>
      cases h
      rcases hwarning with hwarning | hwarning
      · exact ⟨"Warning", by decide, hwarning⟩
      · exact ⟨"Warn", by decide, hwarning⟩
    split at h
    · next hinformation =>
      cases h
      rcases hinformation with hinformation | hinformation
      · exact ⟨"Information", by decide, hinformation⟩
      · exact ⟨"Info", by decide, hinformation⟩
    split at h
    · next hdebug => cases h; exact ⟨"Debug", by decide, hdebug⟩
    split at h
    · next hverbose => cases h; exact ⟨"Verbose", by decide, hverbose⟩
    · cases h
  · rintro ⟨n, hn, rfl⟩
    revert n
    cases s <;> simp [spellings] <;> decide

theorem ofName_eq_ok_iff {name : String} {s : Severity} : ofName name = .ok s ↔
    ∃ n ∈ s.spellings, Text.sameLetters n (Text.respelled (Text.trimmed name)) = true := by
  have hfound : ofName name = .ok s ↔ ofName? name = some s := by
    cases h : ofName? name <;> simp [ofName, h]
  rw [hfound, ofName?_eq_some_iff, ← Text.toList_trimmed]
  refine exists_congr fun n => and_congr_right fun hn => ?_
  exact Text.capitals_eq_iff (plain_of_mem_spellings hn) _

theorem ofName_eq_error {name : String} {e : Error} (h : ofName name = .error e) : e = .invalidSeverity name := by
  unfold ofName at h
  split at h
  · cases h
  · exact (Except.error.inj h).symm

/-- A name is found by its spelling alone unless it is found for one that it only looks like. -/
theorem foundBySpelling_iff (name : String) :
    FoundBySpelling ofName spellings Error.invalidSeverity name ↔
      ∀ s, ofName name = .ok s → ∀ c ∈ (Text.trimmed name).toList, c ∉ Text.lookalikes := by
  constructor
  · intro h s hs
    obtain ⟨n, hn, hsame⟩ := (h.found s).mp hs
    exact ((Text.sameLetters_iff_respelled (plain_of_mem_spellings hn) _).mp hsame).2
  · intro h
    refine .of_found (fun s => ?_) fun e => ofName_eq_error
    constructor
    · intro hs
      obtain ⟨n, hn, hsame⟩ := ofName_eq_ok_iff.mp hs
      exact ⟨n, hn, (Text.sameLetters_iff_respelled (plain_of_mem_spellings hn) _).mpr ⟨hsame, h s hs⟩⟩
    · rintro ⟨n, hn, hsame⟩
      obtain ⟨hrespelled, -⟩ := (Text.sameLetters_iff_respelled (plain_of_mem_spellings hn) _).mp hsame
      exact ofName_eq_ok_iff.mpr ⟨n, hn, hrespelled⟩

end Severity

/-! ### Colors -/

namespace Color

theorem eq_of_sameLetters {c d : Color} (h : Text.sameLetters c.name d.name = true) : c = d := by
  have hall : all.Forall fun c => all.Forall fun d => Text.sameLetters c.name d.name = true → c = d := by decide
  simp only [List.forall_iff_forall_mem] at hall
  exact hall c c.mem_all d d.mem_all h

theorem ofName?_eq_some_iff {name : String} {c : Color} :
    ofName? name = some c ↔ Text.sameLetters c.name (Text.trimmed name) = true := by
  constructor
  · intro h
    simpa using List.find?_some h
  · intro h
    cases hfind : ofName? name with
    | none => exact absurd h (by simpa using List.find?_eq_none.mp hfind c c.mem_all)
    | some d =>
      have hd : Text.sameLetters d.name (Text.trimmed name) = true := by simpa using List.find?_some hfind
      rw [eq_of_sameLetters (Text.sameLetters_trans hd (Text.sameLetters_comm h))]

theorem ofName_eq_error {name : String} {e : Error} (h : ofName name = .error e) : e = .invalidColor name := by
  unfold ofName at h
  split at h
  · cases h
  · exact (Except.error.inj h).symm

theorem foundBySpelling (name : String) : FoundBySpelling ofName (fun c => [c.name]) Error.invalidColor name := by
  refine .of_found (fun c => ?_) fun e => ofName_eq_error
  have hfound : ofName name = .ok c ↔ ofName? name = some c := by
    cases h : ofName? name <;> simp [ofName, h]
  rw [hfound, ofName?_eq_some_iff]
  simp

end Color
end Logbook
