import Logbook.Proofs.Store.Derived
import Logbook.Proofs.Submission
import Logbook.Proofs.Template.Cache
import Logbook.Proofs.Template.Rendering

/-! Routing that spares itself the caller, against a plain one that finds the caller out first. The plain routing
    compiles its template anew and decides about the file by one rule. Main statement: both lead to the same decision
    and the same store, and the scene is asked for the caller exactly where the line or the file depends on it. -/

namespace Logbook
namespace Routing

/-! ### The plain routing -/

/-- The rule for the log file: there is one, and the message is asked to go there, or nothing is asked and those
    settings say so that hold for the caller. -/
def GoesToFile (f : FileSettings) (asked : Option Bool) (caller : Caller) : Prop :=
  Text.trimmed f.name ≠ "" ∧
    (asked = some true ∨ asked = none ∧ (if caller.interactive then f.fromHost else f.fromScript) = true)

instance (f : FileSettings) (asked : Option Bool) (caller : Caller) : Decidable (GoesToFile f asked caller) :=
  inferInstanceAs (Decidable (_ ∧ _))

/-- The template of a message: the one that is asked for, or the configured one. -/
def plainTemplate (s : Store) (o : Options) : Template :=
  Template.compile (o.template.getD s.config.template)

/-- The caller of a message: the one it comes with, or else the one of the scene. -/
def plainCaller (scene : Scene) (o : Options) : Caller :=
  o.caller.getD scene.caller

/-- What is decided about a message once its caller is known, and the store after that. -/
def plain (s : Store) (scene : Scene) (severity : Severity) (message : String) (o : Options) : Decision × Store :=
  let caller := plainCaller scene o
  let category := Plan.categoryOf o.category s.config.categories
  let destination := Plan.destinationOf o.destination s.config
  let color := match destination with
    | .streams => none
    | .host => Plan.hostColor o.color category severity s.config
  let text := (plainTemplate s o).render ⟨message, severity, category, some caller, scene.now⟩
  let (file, store) := if GoesToFile s.config.file o.writeToFile caller then s.claim scene.occasion else (none, s)
  (⟨text, destination, color, severity, file⟩, store)

/-- The scene has to be asked for the caller: none comes with the message, and the line says something of the
    caller or the log file depends on it. -/
def AsksScene (s : Store) (o : Options) : Prop :=
  o.caller = none ∧
    ((plainTemplate s o).uses .callerName = true ∨ (plainTemplate s o).uses .callerLine = true ∨
      o.writeToFile = none ∧ Text.trimmed s.config.file.name ≠ "" ∧
        s.config.file.fromScript ≠ s.config.file.fromHost)

instance (s : Store) (o : Options) : Decidable (AsksScene s o) :=
  inferInstanceAs (Decidable (_ ∧ _))

/-! ### Policies for the log file -/

theorem trimmed_name_ne_empty {f : FileSettings} : Text.trimmed f.name ≠ "" ↔ f.isEnabled = true := by
  rw [ne_eq, Text.trimmed_eq_empty_iff, Store.isEnabled_eq]
  simp

section
variable {f : FileSettings} {asked : Option Bool}

theorem needsCaller_choose : (FilePolicy.choose asked f).needsCaller = true ↔
    asked = none ∧ f.isEnabled = true ∧ f.fromScript ≠ f.fromHost := by
  rcases asked with _ | _ | _
  · cases hfile : f.isEnabled
    · simp [FilePolicy.choose, FilePolicy.needsCaller, hfile]
    · by_cases hsame : f.fromScript = f.fromHost
      · cases hhost : f.fromHost <;> simp [FilePolicy.choose, FilePolicy.needsCaller, hfile, hsame, hhost]
      · simp [FilePolicy.choose, FilePolicy.needsCaller, hfile, hsame]
  · simp [FilePolicy.choose, FilePolicy.needsCaller]
  · simp [FilePolicy.choose, FilePolicy.needsCaller]

/-- Where there is a file, the policy for a known caller is the rule. -/
theorem allows_choose (hfile : f.isEnabled = true) (caller : Caller) :
    (FilePolicy.choose asked f).allows (some caller) = true ↔ GoesToFile f asked caller := by
  rw [GoesToFile, trimmed_name_ne_empty]
  rcases asked with _ | _ | _
  · by_cases hsame : f.fromScript = f.fromHost
    · cases hhost : f.fromHost <;> simp [FilePolicy.choose, FilePolicy.allows, hfile, hsame, hhost]
    · simp [FilePolicy.choose, FilePolicy.allows, hfile, hsame]
  · simp [FilePolicy.choose, FilePolicy.allows]
  · simp [FilePolicy.choose, FilePolicy.allows, hfile]

theorem allows_of_needsCaller_eq_false {policy : FilePolicy} (h : policy.needsCaller = false)
    (caller caller' : Option Caller) : policy.allows caller = policy.allows caller' := by
  cases policy with
  | never => rfl
  | always => rfl
  | byCaller fromScript fromHost => cases h

end

/-! ### The parts of a decision -/

section
variable {s : Store} (plan : Plan) (o : Options) (scene : Scene)

/-- The caller is found out as the plain routing does it, unless nothing depends on it. -/
theorem callerOf_fst :
    (callerOf plan o scene).1 = some (plainCaller scene o) ∨
      plan.template.needsCaller = false ∧ plan.file.needsCaller = false := by
  unfold callerOf
  split
  · left
    cases hcaller : o.caller <;> simp [plainCaller, hcaller]
  · next hneeds =>
    right
    simpa [Plan.needsCaller] using hneeds

theorem render_callerOf (message : String) (severity : Severity) :
    plan.template.render ⟨message, severity, plan.category, (callerOf plan o scene).1, scene.now⟩ =
      plan.template.render ⟨message, severity, plan.category, some (plainCaller scene o), scene.now⟩ := by
  rcases callerOf_fst plan o scene with hcaller | ⟨htemplate, -⟩
  · rw [hcaller]
  · exact Template.render_caller htemplate _ _ _ _ _ _

/-- The file is granted by the rule for the plain caller. -/
theorem fileOf_callerOf (hs : s.Reachable) (hplan : plan.file = .choose o.writeToFile s.config.file) :
    fileOf s plan (callerOf plan o scene).1 scene =
      if GoesToFile s.config.file o.writeToFile (plainCaller scene o) then s.claim scene.occasion else (none, s) := by
  cases hfile : s.config.file.isEnabled
  · -- Without a file the policy may let a message pass that asks for it; the store holds it back.
    have hnot : ¬GoesToFile s.config.file o.writeToFile (plainCaller scene o) := fun h => by
      rw [GoesToFile, trimmed_name_ne_empty, hfile] at h
      cases h.1
    rw [if_neg hnot, fileOf, hs.claim_of_not_isEnabled hfile, ite_self]
  · have hallows : plan.file.allows (callerOf plan o scene).1 = plan.file.allows (some (plainCaller scene o)) := by
      rcases callerOf_fst plan o scene with hcaller | ⟨-, hpolicy⟩
      · rw [hcaller]
      · exact allows_of_needsCaller_eq_false hpolicy _ _
    rw [fileOf, hallows, hplan]
    exact if_congr (allows_choose hfile _) rfl rfl

theorem callerOf_snd : (callerOf plan o scene).2 = if o.caller = none ∧ plan.needsCaller = true then 1 else 0 := by
  unfold callerOf
  cases hneeds : plan.needsCaller
  · simp
  · cases hcaller : o.caller <;> simp

variable {plan o scene}

theorem callerOf_of_not_asked (h : (callerOf plan o scene).2 = 0) (caller : Caller) :
    callerOf plan o { scene with caller := caller } = callerOf plan o scene := by
  unfold callerOf at h ⊢
  split
  · next hneeds =>
    cases hcaller : o.caller with
    | none =>
      rw [if_pos hneeds, hcaller] at h
      cases h
    | some other => rfl
  · rfl

end

theorem templateOf_fst {s : Store} {cache : TemplateCache} (hs : s.Reachable) (hcache : cache.Reachable)
    (o : Options) : (templateOf s cache o).1 = plainTemplate s o := by
  unfold templateOf plainTemplate
  cases o.template with
  | none => exact hs.template
  | some source => exact hcache.faithful.get_fst source

/-! ### Routing -/

section
variable {s : Store} {cache : TemplateCache} {o : Options} {severity : Severity}

theorem route_eq_plain (hs : s.Reachable) (hcache : cache.Reachable) (scene : Scene) (message : String) :
    (route s cache scene severity message o).outcome = .routed (plain s scene severity message o).1 ∧
      (route s cache scene severity message o).store = (plain s scene severity message o).2 := by
  have hfile := fileOf_callerOf (Plan.make s.config (plainTemplate s o) severity o) o scene hs rfl
  have htext := render_callerOf (Plan.make s.config (plainTemplate s o) severity o) o scene message severity
  constructor
  · simp only [route, plain, templateOf_fst hs hcache, hfile, htext]
    rfl
  · simp only [route, plain, templateOf_fst hs hcache, hfile]

theorem route_asked (hs : s.Reachable) (hcache : cache.Reachable) (scene : Scene) (message : String) :
    (route s cache scene severity message o).asked = if AsksScene s o then 1 else 0 := by
  have hneeds : (Plan.make s.config (plainTemplate s o) severity o).needsCaller = true ↔
      (plainTemplate s o).uses .callerName = true ∨ (plainTemplate s o).uses .callerLine = true ∨
        o.writeToFile = none ∧ Text.trimmed s.config.file.name ≠ "" ∧
          s.config.file.fromScript ≠ s.config.file.fromHost := by
    rw [trimmed_name_ne_empty, ← needsCaller_choose, ← or_assoc]
    simp [Plan.needsCaller, Plan.make, Template.needsCaller]
  simp only [route, templateOf_fst hs hcache, callerOf_snd]
  exact if_congr (and_congr_right fun _ => hneeds) rfl rfl

theorem route_of_not_asked {scene : Scene} {message : String}
    (h : (route s cache scene severity message o).asked = 0) (caller : Caller) :
    route s cache { scene with caller := caller } severity message o = route s cache scene severity message o := by
  simp only [route] at h ⊢
  rw [callerOf_of_not_asked h caller]
  rfl

/-- A message that passes the threshold is routed as the plain routing has it, with the same store after it. It is
    granted a file exactly by the rule; the scene is asked for the caller once where something depends on it, and
    else not at all, so that its caller counts for nothing. -/
theorem submit_eq_plain (hs : s.Reachable) (hcache : cache.Reachable) (hlevel : o.level = .ok severity)
    (hpasses : severity.passes s.config.threshold = true) (scene : Scene) (message : String) :
    ∃ done, submit s cache scene message o = .ok done ∧
      done.outcome = .routed (plain s scene severity message o).1 ∧
      done.store = (plain s scene severity message o).2 ∧
      ((plain s scene severity message o).1.file.isSome = true ↔
        GoesToFile s.config.file o.writeToFile (plainCaller scene o)) ∧
      done.asked = (if AsksScene s o then 1 else 0) ∧
      (done.asked = 0 → ∀ caller, submit s cache { scene with caller := caller } message o = .ok done) := by
  obtain ⟨houtcome, hstore⟩ := route_eq_plain hs hcache scene message
  refine ⟨_, submit_of_passes hlevel hpasses cache scene message, houtcome, hstore, ?_,
    route_asked hs hcache scene message, fun hasked caller => ?_⟩
  · by_cases hgoes : GoesToFile s.config.file o.writeToFile (plainCaller scene o)
    · have hclaim := hs.claim_isSome scene.occasion
      rw [trimmed_name_ne_empty.mp hgoes.1] at hclaim
      simp [plain, hgoes, hclaim]
    · simp [plain, hgoes]
  · rw [submit_of_passes hlevel hpasses, route_of_not_asked hasked]

/-- A message with nothing asked for is routed by a new store; for the sake of the file the scene is asked once. -/
theorem submit_eq_plain_initial :
    let occasion : Occasion := ⟨⟨"/srv"⟩, ⟨0, 0, 0⟩⟩
    let scene : Scene := ⟨.console, ⟨0, 0, 0⟩, occasion⟩
    ∃ done, submit (Store.initial occasion) default scene "ready" .none = .ok done ∧
      done.outcome = .routed (plain (Store.initial occasion) scene .information "ready" .none).1 ∧
      done.store = (plain (Store.initial occasion) scene .information "ready" .none).2 ∧ done.asked = 1 := by
  intro occasion scene
  have hs : (Store.initial occasion).Reachable := ⟨occasion, [], rfl⟩
  have hcache : TemplateCache.Reachable default := ⟨TemplateCache.defaultCapacity, [], rfl⟩
  have hlevel : Options.none.level = .ok .information := rfl
  have hpasses : Severity.information.passes (Store.initial occasion).config.threshold = true := by decide
  obtain ⟨done, hdone, houtcome, hstore, -, hasked, -⟩ := submit_eq_plain hs hcache hlevel hpasses scene "ready"
  refine ⟨done, hdone, houtcome, hstore, hasked.trans (if_pos ⟨rfl, Or.inr (Or.inr ⟨rfl, ?_, ?_⟩)⟩)⟩
  · exact trimmed_name_ne_empty.mpr (by decide)
  · decide

end

end Routing
end Logbook
