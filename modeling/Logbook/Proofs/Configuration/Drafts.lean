import Logbook.Proofs.Configuration.Printed
import Logbook.Proofs.Json.Refused
import Logbook.Proofs.Names

/-! Configurations whose severities and colors are given by names, as they are written in JSON. Main statement: reading
    the JSON of a draft finds the severity or color of each name, one name after the other, and fails with the text of
    the error of the first that names none. -/

namespace Logbook
open Json

/-! ### Drafts -/

/-- The settings of a category with the name of its color. -/
structure CategoryDraft where
  color : Option String
  isDefault : Bool

/-- A configuration with names for its severities and colors, whatever these are. -/
structure Draft where
  threshold : String
  template : String
  writeToHost : Bool
  hostColors : List (String × String)
  categories : List (String × CategoryDraft)
  file : FileSettings

/-- The error as a fault of the text in which it came up. -/
def Error.refusal (e : Error) : Fault :=
  .refused e.message

namespace CategoryDraft

def toJson (c : CategoryDraft) : Value :=
  match c.color with
  | some name => .object [("Color", .text name), ("IsDefault", .truth c.isDefault)]
  | none => .object [("IsDefault", .truth c.isDefault)]

/-- The category of the draft, if its color has a name. -/
def resolve (c : CategoryDraft) : Except Error Category := do
  match c.color with
  | some name => return ⟨some (← Color.ofName name), c.isDefault⟩
  | none => return ⟨none, c.isDefault⟩

theorem resolve_some (name : String) (isDefault : Bool) :
    resolve ⟨some name, isDefault⟩ = (Color.ofName name).map fun color => ⟨some color, isDefault⟩ := by
  simp only [resolve]
  cases Color.ofName name <;> rfl

end CategoryDraft

namespace Draft

/-- The names of the draft that stand for severities. -/
def severityNames (d : Draft) : List String :=
  d.threshold :: d.hostColors.map (·.1)

/-- The names of the draft that stand for colors. -/
def colorNames (d : Draft) : List String :=
  d.hostColors.map (·.2) ++ d.categories.filterMap (·.2.color)

def toJson (d : Draft) : Value :=
  .object [("LogLevel", .text d.threshold), ("MessageFormat", .text d.template), ("WriteToHost", .truth d.writeToHost),
    ("HostTextColor", .object (d.hostColors.map fun entry => (entry.1, .text entry.2))),
    ("CategoryInfo", .object (d.categories.map fun entry => (entry.1, entry.2.toJson))), ("LogFile", d.file.toJson)]

def resolveColors (d : Draft) : Except Error HostColors :=
  d.hostColors.foldlM (fun t entry => do return t.insert (← Severity.ofName entry.1) (← Color.ofName entry.2)) ∅

def resolveCategories (d : Draft) : Except Error CategoryTable :=
  d.categories.foldlM (fun t entry => do return t.insert entry.1 (← entry.2.resolve)) ∅

/-- The configuration of the draft, if all its severities and colors have names; these are looked up in their order. -/
def resolve (d : Draft) : Except Error Configuration := do
  let threshold ← Severity.ofName d.threshold
  let hostColors ← d.resolveColors
  let categories ← d.resolveCategories
  return ⟨threshold, d.template, d.writeToHost, hostColors, categories, d.file⟩

end Draft

/-! ### Reading a draft -/

theorem foldlM_mapError {ε ε' α β : Type} (g : ε → ε') (f : β → α → Except ε β) (b : β) (l : List α) :
    (l.foldlM f b).mapError g = l.foldlM (fun b a => (f b a).mapError g) b := by
  induction l generalizing b with
  | nil => rfl
  | cons a l ih =>
    rw [List.foldlM_cons, List.foldlM_cons]
    cases h : f b a with
    | error e => rfl
    | ok c => exact ih c

/-- A string is read as what it names, or refused with the text of the error. -/
theorem named_of_string {α : Type} (find : String → Except Error α) {name : String} {text rest : List Char}
    (h : string text = .ok (name, rest)) :
    named (fun name => (find name).mapError Error.message) text =
      ((find name).mapError Error.refusal).map fun a => (a, rest) := by
  simp only [named, h, bind, Except.bind]
  cases find name <;> rfl

theorem Severity.answers (name : String) :
    Answers Severity.read (.text name) ((Severity.ofName name).mapError Error.refusal) :=
  fun depth s rest hs => named_of_string Severity.ofName (reads_string name depth s rest hs)

theorem Color.answers (name : String) :
    Answers Color.read (.text name) ((Color.ofName name).mapError Error.refusal) :=
  fun depth s rest hs => named_of_string Color.ofName (reads_string name depth s rest hs)

theorem CategoryDraft.answers (c : CategoryDraft) :
    Answers Category.read c.toJson (c.resolve.mapError Error.refusal) := by
  obtain ⟨color, isDefault⟩ := c
  cases color with
  | none => exact reads_record (by decide) (.skip (.cons ((reads_bool isDefault).map fun _ => rfl) (.nil _)))
  | some name =>
    have hoptional := answers_optional (Color.answers name)
    rw [resolve_some]
    cases hname : Color.ofName name with
    | error e =>
      rw [hname] at hoptional
      exact answers_record (by decide) (.here (hoptional.refuses rfl).map_error)
    | ok color =>
      rw [hname] at hoptional
      exact reads_record (by decide) (.cons ((hoptional.reads rfl).map fun _ => rfl)
        (.cons ((reads_bool isDefault).map fun _ => rfl) (.nil _)))

namespace Draft

theorem answers_hostColors (d : Draft) :
    Answers HostColors.read (.object (d.hostColors.map fun entry => (entry.1, .text entry.2)))
      (d.resolveColors.mapError Error.refusal) := by
  have hfold : d.resolveColors.mapError Error.refusal = d.hostColors.foldlM (fun t entry => do
      return t.insert (← HostColors.readKey entry.1) (← (Color.ofName entry.2).mapError Error.refusal)) ∅ := by
    rw [resolveColors, foldlM_mapError]
    refine congrArg (fun step => d.hostColors.foldlM step ∅) (funext₂ fun t entry => ?_)
    unfold HostColors.readKey
    cases Severity.ofName entry.1 with
    | error e => rfl
    | ok s => cases Color.ofName entry.2 <;> rfl
  rw [hfold]
  exact answers_table HostColors.insert Color.answers ∅ d.hostColors

theorem answers_categories (d : Draft) :
    Answers CategoryTable.read (.object (d.categories.map fun entry => (entry.1, entry.2.toJson)))
      (d.resolveCategories.mapError Error.refusal) := by
  have hfold : d.resolveCategories.mapError Error.refusal = d.categories.foldlM (fun t entry => do
      return t.insert (← Except.ok entry.1) (← entry.2.resolve.mapError Error.refusal)) ∅ := by
    rw [resolveCategories, foldlM_mapError]
    refine congrArg (fun step => d.categories.foldlM step ∅) (funext₂ fun t entry => ?_)
    cases entry.2.resolve <;> rfl
  rw [hfold]
  exact answers_table CategoryTable.insert CategoryDraft.answers ∅ d.categories

theorem answers (d : Draft) : Answers Configuration.read d.toJson (d.resolve.mapError Error.refusal) := by
  have hthreshold := Severity.answers d.threshold
  have hcolors := d.answers_hostColors
  have hcategories := d.answers_categories
  -- The fields are read in the order in which their names are looked up, and the others are never refused.
  cases hlevel : Severity.ofName d.threshold with
  | error e =>
    have hresolve : d.resolve = .error e := by simp [resolve, hlevel, bind, Except.bind]
    rw [hlevel] at hthreshold
    rw [hresolve]
    exact answers_record (by decide) (.here (hthreshold.refuses rfl).map_error)
  | ok threshold =>
    rw [hlevel] at hthreshold
    cases hhost : d.resolveColors with
    | error e =>
      have hresolve : d.resolve = .error e := by simp [resolve, hlevel, hhost, bind, Except.bind]
      rw [hhost] at hcolors
      rw [hresolve]
      exact answers_record (by decide) (.later ((hthreshold.reads rfl).map fun _ => rfl)
        (.later ((reads_string d.template).map fun _ => rfl) (.later ((reads_bool d.writeToHost).map fun _ => rfl)
        (.here (hcolors.refuses rfl).map_error))))
    | ok hostColors =>
      rw [hhost] at hcolors
      cases hlisted : d.resolveCategories with
      | error e =>
        have hresolve : d.resolve = .error e := by simp [resolve, hlevel, hhost, hlisted, bind, Except.bind]
        rw [hlisted] at hcategories
        rw [hresolve]
        exact answers_record (by decide) (.later ((hthreshold.reads rfl).map fun _ => rfl)
          (.later ((reads_string d.template).map fun _ => rfl) (.later ((reads_bool d.writeToHost).map fun _ => rfl)
          (.later ((hcolors.reads rfl).map fun _ => rfl) (.here (hcategories.refuses rfl).map_error)))))
      | ok categories =>
        have hresolve : d.resolve =
            .ok ⟨threshold, d.template, d.writeToHost, hostColors, categories, d.file⟩ := by
          simp [resolve, hlevel, hhost, hlisted, bind, Except.bind, pure, Except.pure]
        rw [hlisted] at hcategories
        rw [hresolve]
        exact reads_record (by decide) (.cons ((hthreshold.reads rfl).map fun _ => rfl)
          (.cons ((reads_string d.template).map fun _ => rfl) (.cons ((reads_bool d.writeToHost).map fun _ => rfl)
          (.cons ((hcolors.reads rfl).map fun _ => rfl) (.cons ((hcategories.reads rfl).map fun _ => rfl)
          (.cons (d.file.reads.map fun _ => rfl) (.nil _)))))))

/-! ### The names of a draft -/

/-- All severities and colors of the draft have names, or the error is that of a name that none has. -/
inductive Resolved (d : Draft) : Except Error Configuration → Prop where
  | found {c : Configuration} (severities : ∀ name ∈ d.severityNames, ∃ s, Severity.ofName name = .ok s)
      (colors : ∀ name ∈ d.colorNames, ∃ c, Color.ofName name = .ok c) : Resolved d (.ok c)
  | noSeverity {name : String} (mem : name ∈ d.severityNames) (refused : ∀ s, Severity.ofName name ≠ .ok s) :
      Resolved d (.error (.invalidSeverity name))
  | noColor {name : String} (mem : name ∈ d.colorNames) (refused : ∀ c, Color.ofName name ≠ .ok c) :
      Resolved d (.error (.invalidColor name))

theorem resolveColors_cases (d : Draft) :
    (∃ t, d.resolveColors = .ok t ∧ (∀ name ∈ d.hostColors.map (·.1), ∃ s, Severity.ofName name = .ok s) ∧
      ∀ name ∈ d.hostColors.map (·.2), ∃ c, Color.ofName name = .ok c) ∨
    ∃ e, d.resolveColors = .error e ∧ ((∃ name ∈ d.hostColors.map (·.1), Severity.ofName name = .error e) ∨
      ∃ name ∈ d.hostColors.map (·.2), Color.ofName name = .error e) := by
  unfold resolveColors
  generalize (∅ : HostColors) = t
  induction d.hostColors generalizing t with
  | nil => exact Or.inl ⟨t, rfl, by simp, by simp⟩
  | cons entry entries ih =>
    obtain ⟨severity, color⟩ := entry
    rw [List.foldlM_cons]
    simp only [List.map_cons, List.forall_mem_cons, List.exists_mem_cons_iff]
    cases hseverity : Severity.ofName severity with
    | error e => exact Or.inr ⟨e, rfl, Or.inl (Or.inl rfl)⟩
    | ok s =>
      cases hcolor : Color.ofName color with
      | error e => exact Or.inr ⟨e, rfl, Or.inr (Or.inl rfl)⟩
      | ok c =>
        rcases ih (t.insert s c) with ⟨u, hu, hseverities, hcolors⟩ | ⟨e, he, hrefused⟩
        · exact Or.inl ⟨u, hu, ⟨⟨s, rfl⟩, hseverities⟩, ⟨c, rfl⟩, hcolors⟩
        · exact Or.inr ⟨e, he, hrefused.imp Or.inr Or.inr⟩

theorem resolveCategories_cases (d : Draft) :
    (∃ t, d.resolveCategories = .ok t ∧ ∀ name ∈ d.categories.filterMap (·.2.color), ∃ c, Color.ofName name = .ok c) ∨
    ∃ e, d.resolveCategories = .error e ∧
      ∃ name ∈ d.categories.filterMap (·.2.color), Color.ofName name = .error e := by
  unfold resolveCategories
  generalize (∅ : CategoryTable) = t
  induction d.categories generalizing t with
  | nil => exact Or.inl ⟨t, rfl, by simp⟩
  | cons entry entries ih =>
    obtain ⟨name, color, isDefault⟩ := entry
    rw [List.foldlM_cons]
    cases color with
    | none => exact ih (t.insert name ⟨none, isDefault⟩)
    | some color =>
      simp only [List.filterMap_cons, List.forall_mem_cons, List.exists_mem_cons_iff, CategoryDraft.resolve_some]
      cases hcolor : Color.ofName color with
      | error e => exact Or.inr ⟨e, rfl, Or.inl rfl⟩
      | ok c =>
        rcases ih (t.insert name ⟨some c, isDefault⟩) with ⟨u, hu, hcolors⟩ | ⟨e, he, hrefused⟩
        · exact Or.inl ⟨u, hu, ⟨c, rfl⟩, hcolors⟩
        · exact Or.inr ⟨e, he, Or.inr hrefused⟩

theorem Resolved.of_severity {d : Draft} {name : String} {e : Error} (hmem : name ∈ d.severityNames)
    (h : Severity.ofName name = .error e) : d.Resolved (.error e) := by
  obtain rfl := Severity.ofName_eq_error h
  exact .noSeverity hmem fun s hs => by rw [h] at hs; cases hs

theorem Resolved.of_color {d : Draft} {name : String} {e : Error} (hmem : name ∈ d.colorNames)
    (h : Color.ofName name = .error e) : d.Resolved (.error e) := by
  obtain rfl := Color.ofName_eq_error h
  exact .noColor hmem fun c hc => by rw [h] at hc; cases hc

theorem resolved (d : Draft) : d.Resolved d.resolve := by
  unfold resolve
  cases hlevel : Severity.ofName d.threshold with
  | error e => exact .of_severity List.mem_cons_self hlevel
  | ok threshold =>
    rcases d.resolveColors_cases with ⟨hostColors, hhost, hseverities, hcolors⟩ | ⟨e, hhost, hrefused⟩
    · rcases d.resolveCategories_cases with ⟨categories, hlisted, hothers⟩ | ⟨e, hlisted, name, hmem, hname⟩
      · simp only [hhost, hlisted, bind, Except.bind, pure, Except.pure]
        exact .found (List.forall_mem_cons.mpr ⟨⟨threshold, hlevel⟩, hseverities⟩)
          (List.forall_mem_append.mpr ⟨hcolors, hothers⟩)
      · simp only [hhost, hlisted, bind, Except.bind]
        exact .of_color (List.mem_append_right _ hmem) hname
    · simp only [hhost, bind, Except.bind]
      rcases hrefused with ⟨name, hmem, hname⟩ | ⟨name, hmem, hname⟩
      · exact .of_severity (List.mem_cons_of_mem _ hmem) hname
      · exact .of_color (List.mem_append_left _ hmem) hname

end Draft

/-! ### Names -/

/-- A severity is found by its spellings with lookalike letters respelled, and otherwise the error carries the name
    as it is; so it is found exactly by its spellings if no name with such letters is taken. A color is found
    exactly by its name. Options take the names that are found, and so does JSON: a text is read as what it names or
    refused with the text of the error, and a draft of a configuration is read as what its names resolve to or
    refused for one of them. -/
theorem names_found_iff (name : String) :
    (∀ s, Severity.ofName name = .ok s ↔
      ∃ n ∈ s.spellings, Text.sameLetters n (Text.respelled (Text.trimmed name)) = true) ∧
    (∀ e, Severity.ofName name = .error e → e = .invalidSeverity name) ∧
    (FoundBySpelling Severity.ofName Severity.spellings Error.invalidSeverity name ↔
      ∀ s, Severity.ofName name = .ok s → ∀ c ∈ (Text.trimmed name).toList, c ∉ Text.lookalikes) ∧
    FoundBySpelling Color.ofName (fun c => [c.name]) Error.invalidColor name ∧
    (∀ o : Options,
      (∀ e, o.withSeverity name = .error e ↔ Severity.ofName name = .error e) ∧
      (∀ e, o.withColor name = .error e ↔ Color.ofName name = .error e)) ∧
    (∀ text rest, string text = .ok (name, rest) →
      Severity.read text = ((Severity.ofName name).mapError Error.refusal).map (·, rest) ∧
      Color.read text = ((Color.ofName name).mapError Error.refusal).map (·, rest)) ∧
    ∀ d : Draft, d.Resolved d.resolve ∧
      Configuration.ofJson d.toJson.prettyText = d.resolve.mapError Error.refusal := by
  refine ⟨fun s => Severity.ofName_eq_ok_iff, fun e => Severity.ofName_eq_error, Severity.foundBySpelling_iff name,
    Color.foundBySpelling name, fun o => ⟨fun e => ?_, fun e => ?_⟩,
    fun text rest h => ⟨named_of_string Severity.ofName h, named_of_string Color.ofName h⟩,
    fun d => ⟨d.resolved, document_answers d.answers⟩⟩
  · unfold Options.withSeverity
    cases Severity.ofName name <;> simp [Except.map]
  · unfold Options.withColor
    cases Color.ofName name <;> simp [Except.map]

/-- A ligature of two letters f is taken for them: the threshold that shows nothing is found by a name that it does not
    have. -/
theorem not_foundBySpelling_ligature :
    Severity.ofName "oﬀ" = .ok .off ∧
      ¬FoundBySpelling Severity.ofName Severity.spellings Error.invalidSeverity "oﬀ" := by
  refine ⟨by decide, fun h => ?_⟩
  obtain ⟨n, hn, hsame⟩ := (h.found .off).mp (by decide)
  obtain rfl := List.mem_singleton.mp hn
  exact absurd hsame (by decide)

end Logbook
