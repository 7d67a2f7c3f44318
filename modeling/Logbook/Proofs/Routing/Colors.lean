import Logbook.Proofs.Category.Listed
import Logbook.Proofs.Store.Valid
import Logbook.Proofs.Submission

/-! The color of a line. What is asked for with the message comes first, then the color of its category, then that of
    its severity; a line on a stream has none. The default category is found by its flag and then looked up by its name,
    like any other. Main statement: a line has the color of the entry of its category, unless that is the default and
    has blanks around its name; then the line has the color of another entry, or none of a category. -/

namespace Logbook

namespace Plan

/-- The name of a category that is asked for, unless it is blank. -/
def askedName? (asked : Option String) : Option String :=
  (asked.map Text.trimmed).filter (· != "")

/-- The entry of the category that a message belongs to: the one that goes by the name that is asked for, or else the
    default. -/
def entryFor (asked : Option String) (t : CategoryTable) : Option (String × Category) :=
  match askedName? asked with
  | some name => t.listed? name
  | none => t.entries.find? fun entry => entry.2.isDefault

/-- The color of a line that goes to `destination`, for a message whose category has this entry. -/
def colorFrom (entry : Option (String × Category)) (destination : Destination) (asked : Option Color)
    (severity : Severity) (c : Configuration) : Option Color :=
  match destination with
  | .streams => none
  | .host => (asked.or (entry.bind (·.2.color))).or (c.hostColors.get? severity)

/-! ### The entry whose color is looked up -/

/-- The entry that is found under the name of a message's category, if it has one. -/
def lookedUp (asked : Option String) (t : CategoryTable) : Option (String × Category) :=
  if categoryOf asked t = "" then none else t.listed? (Text.trimmed (categoryOf asked t))

theorem color_make (c : Configuration) (template : Template) (severity : Severity) (o : Options) :
    (make c template severity o).color =
      colorFrom (lookedUp o.category c.categories) (destinationOf o.destination c) o.color severity c := by
  unfold make colorFrom hostColor lookedUp
  dsimp only
  cases destinationOf o.destination c with
  | streams => rfl
  | host =>
    dsimp only
    split
    · rfl
    · rw [CategoryTable.color?, CategoryTable.get?_eq, Option.bind_map]
      rfl

section
variable {t : CategoryTable} {asked : Option String} {entry : String × Category}

theorem lookedUp_of_asked {name : String} (h : askedName? asked = some name) : lookedUp asked t = t.listed? name := by
  obtain ⟨hname, hne⟩ := Option.filter_eq_some_iff.mp h
  obtain ⟨given, -, rfl⟩ := Option.map_eq_some_iff.mp hname
  have hcategory : categoryOf asked t = Text.trimmed given := congrArg (·.getD (t.default?.getD "")) h
  rw [lookedUp, hcategory, if_neg (by simpa using hne), Text.trimmed_trimmed]

theorem lookedUp_of_default (ht : t.Valid) (h : askedName? asked = none) (hentry : entry ∈ t.entries)
    (hdefault : entry.2.isDefault = true) : lookedUp asked t = t.listed? (Text.trimmed entry.1) := by
  have hcategory : categoryOf asked t = entry.1 := by
    show (askedName? asked).getD (t.default?.getD "") = entry.1
    rw [h, ht.default?_eq_some hentry hdefault]
    rfl
  have hname : entry.1 ≠ "" := fun hempty => by
    have hblank := ht.named entry hentry
    rw [hempty] at hblank
    cases hblank
  rw [lookedUp, hcategory, if_neg hname]

theorem lookedUp_of_none (h : askedName? asked = none) (hnone : ∀ entry ∈ t.entries, entry.2.isDefault = false) :
    lookedUp asked t = none := by
  have hdefault : t.default? = none := by
    rw [CategoryTable.default?, Option.map_eq_none_iff, List.find?_eq_none]
    exact fun entry hentry => by simp [hnone entry hentry]
  have hcategory : categoryOf asked t = "" := by
    show (askedName? asked).getD (t.default?.getD "") = ""
    rw [h, hdefault]
    rfl
  rw [lookedUp, if_pos hcategory]

/-- The entry whose color is looked up is that of the category, as long as a name is asked for or nothing is trimmed
    off the name of the default. -/
theorem lookedUp_eq_entryFor (ht : t.Valid)
    (h : askedName? asked ≠ none ∨ ∀ entry ∈ t.entries, entry.2.isDefault = true → Text.trimmed entry.1 = entry.1) :
    lookedUp asked t = entryFor asked t := by
  unfold entryFor
  cases hasked : askedName? asked with
  | some name => exact lookedUp_of_asked hasked
  | none =>
    dsimp only
    cases hfind : t.entries.find? fun entry => entry.2.isDefault with
    | none => exact lookedUp_of_none hasked fun entry hentry => by simpa using List.find?_eq_none.mp hfind entry hentry
    | some entry =>
      have hentry := List.mem_of_find?_eq_some hfind
      have hdefault := List.find?_some hfind
      have htrimmed := h.resolve_left (not_not.mpr hasked) entry hentry hdefault
      rw [lookedUp_of_default ht hasked hentry hdefault, htrimmed, CategoryTable.listed?_self hentry]

end

end Plan

namespace Routing
variable {s : Store} {cache : TemplateCache} {scene : Scene} {message : String} {o : Options} {done : Submission}
  {d : Decision}

theorem route_color (s : Store) (cache : TemplateCache) (scene : Scene) (severity : Severity) (message : String)
    (o : Options) : ∃ d, (route s cache scene severity message o).outcome = .routed d ∧ d.severity = severity ∧
      d.destination = Plan.destinationOf o.destination s.config ∧
      d.color = Plan.colorFrom (Plan.lookedUp o.category s.config.categories) d.destination o.color severity s.config :=
  ⟨_, rfl, rfl, rfl, Plan.color_make s.config (templateOf s cache o).1 severity o⟩

theorem color_submit (hsubmit : submit s cache scene message o = .ok done) (hrouted : done.outcome = .routed d) :
    o.level = .ok d.severity ∧ d.destination = Plan.destinationOf o.destination s.config ∧
      d.color =
        Plan.colorFrom (Plan.lookedUp o.category s.config.categories) d.destination o.color d.severity s.config := by
  rcases submit_cases s cache scene message o with
    ⟨e, -, hcase⟩ | ⟨severity, -, -, hcase⟩ | ⟨severity, hlevel, -, hcase⟩
  · rw [hsubmit] at hcase
    cases hcase
  · rw [hsubmit] at hcase
    obtain rfl := Except.ok.inj hcase
    cases hrouted
  · rw [hsubmit] at hcase
    obtain rfl := Except.ok.inj hcase
    obtain ⟨d', hd, rfl, hdestination, hcolor⟩ := route_color s cache scene severity message o
    obtain rfl := Outcome.routed.inj (hd.symm.trans hrouted)
    exact ⟨hlevel, hdestination, hcolor⟩

/-- A line on a stream has no color. On the host it has the one that is asked for, or else that of the entry of its
    category, or else that of its severity, if there is one: so it is wherever a category is asked for, and wherever
    nothing is trimmed off the name of the default. Where blanks are, another entry takes the place of the default: the
    one that goes by the trimmed name, if any. -/
theorem submit_color (hs : s.Reachable) (hsubmit : submit s cache scene message o = .ok done)
    (hrouted : done.outcome = .routed d) :
    let t := s.config.categories
    o.level = .ok d.severity ∧ d.destination = Plan.destinationOf o.destination s.config ∧
    ((Plan.askedName? o.category ≠ none ∨ ∀ e ∈ t.entries, e.2.isDefault = true → Text.trimmed e.1 = e.1) →
      d.color = Plan.colorFrom (Plan.entryFor o.category t) d.destination o.color d.severity s.config) ∧
    ∀ e ∈ t.entries, e.2.isDefault = true → Plan.askedName? o.category = none → Text.trimmed e.1 ≠ e.1 →
      t.listed? (Text.trimmed e.1) ≠ some e ∧
      d.color = Plan.colorFrom (t.listed? (Text.trimmed e.1)) d.destination o.color d.severity s.config := by
  intro t
  have ht : t.Valid := by
    obtain ⟨first, past, rfl⟩ := hs
    exact (Configuration.validate_eq_ok_iff.mp (Store.validate_run first past)).2
  obtain ⟨hlevel, hdestination, hcolor⟩ := color_submit hsubmit hrouted
  refine ⟨hlevel, hdestination, fun h => ?_, fun e he hdefault hasked hpadded => ⟨fun h => ?_, ?_⟩⟩
  · rw [hcolor, Plan.lookedUp_eq_entryFor ht h]
  · exact hpadded ((CategoryTable.listed?_trimmed_iff he).mp h)
  · rw [hcolor, Plan.lookedUp_of_default ht hasked he hdefault]

/-- A table that was read has a blue default with blanks around its name, and a red category under the trimmed name; a
    message that asks for no category is red. -/
theorem submit_color_twin :
    let occasion : Occasion := ⟨⟨"/srv"⟩, ⟨0, 0, 0⟩⟩
    let table := CategoryTable.ofList [(" Audit ", ⟨some .blue, true⟩), ("Audit", ⟨some .red, false⟩)]
    let s := (Store.initial occasion).run
      [(occasion, .replace ⟨{ Configuration.initial with categories := table }, default⟩)]
    ∃ done d, submit s default ⟨.console, ⟨0, 0, 0⟩, occasion⟩ "ready" .none = .ok done ∧ done.outcome = .routed d ∧
      d.color = some .red := by
  intro occasion table s
  have hs : s.Reachable := ⟨occasion, _, rfl⟩
  have hpasses : Severity.information.passes s.config.threshold = true := by decide
  have hsubmit := submit_of_passes (o := .none) rfl hpasses default ⟨.console, ⟨0, 0, 0⟩, occasion⟩ "ready"
  obtain ⟨d, hrouted, -⟩ := route_color s default ⟨.console, ⟨0, 0, 0⟩, occasion⟩ .information "ready" .none
  obtain ⟨hlevel, hdestination, -, hpadded⟩ := submit_color hs hsubmit hrouted
  refine ⟨_, d, hsubmit, hrouted, ?_⟩
  have hlisted : s.config.categories.listed? "Audit" = some ("Audit", ⟨some .red, false⟩) := by decide
  have htrimmed : Text.trimmed " Audit " = "Audit" := by decide
  rw [(hpadded (" Audit ", ⟨some .blue, true⟩) (by decide) rfl rfl (by decide)).2, hdestination, htrimmed, hlisted]
  rfl

/-- A table that was read has a blue default with blanks around its name; a message that asks for no category has the
    color of its severity. -/
theorem not_submit_color_padded :
    let occasion : Occasion := ⟨⟨"/srv"⟩, ⟨0, 0, 0⟩⟩
    let table := CategoryTable.ofList [(" Audit ", ⟨some .blue, true⟩)]
    let s := (Store.initial occasion).run
      [(occasion, .replace ⟨{ Configuration.initial with categories := table }, default⟩)]
    Plan.entryFor none s.config.categories = some (" Audit ", ⟨some .blue, true⟩) ∧
      ∃ done d, submit s default ⟨.console, ⟨0, 0, 0⟩, occasion⟩ "ready" .none = .ok done ∧ done.outcome = .routed d ∧
        d.destination = .host ∧ d.color = some .cyan := by
  refine ⟨by decide, _, _, rfl, rfl, ?_⟩
  decide

end Routing
end Logbook
