import Logbook.Logger

/-! What submitting a message does. A message that is refused or suppressed does nothing but for one count; one that is
    routed changes the store by at most one claim and goes to every sink. A logger keeps its sinks. -/

namespace Logbook

/-- How a decision came to its file: nothing was claimed, or it has what a claim was answered with. -/
def Decision.Claims (d : Decision) (s : Store) (o : Occasion) (later : Store) : Prop :=
  (d.file, later) = (none, s) ∨ (d.file, later) = s.claim o

namespace Routing

theorem submit_of_passes {s : Store} {o : Options} {severity : Severity} (hlevel : o.level = .ok severity)
    (hpasses : severity.passes s.config.threshold = true) (cache : TemplateCache) (scene : Scene) (message : String) :
    submit s cache scene message o = .ok (route s cache scene severity message o) := by
  simp [submit, hlevel, hpasses, bind, Except.bind, pure, Except.pure]

/-- A message is refused, suppressed or routed; the severity alone can be wrong. -/
theorem submit_cases (s : Store) (cache : TemplateCache) (scene : Scene) (message : String) (o : Options) :
    (∃ e, o.level = .error e ∧ submit s cache scene message o = .error e) ∨
    (∃ severity, o.level = .ok severity ∧ severity.passes s.config.threshold = false ∧
      submit s cache scene message o = .ok ⟨.suppressed, s, cache, 0⟩) ∨
    (∃ severity, o.level = .ok severity ∧ severity.passes s.config.threshold = true ∧
      submit s cache scene message o = .ok (route s cache scene severity message o)) := by
  cases hlevel : o.level with
  | error e => exact Or.inl ⟨e, rfl, by simp [submit, hlevel, bind, Except.bind]⟩
  | ok severity =>
    cases hpasses : severity.passes s.config.threshold
    · refine Or.inr (Or.inl ⟨severity, rfl, hpasses, ?_⟩)
      simp [submit, hlevel, hpasses, bind, Except.bind, pure, Except.pure]
    · exact Or.inr (Or.inr ⟨severity, rfl, hpasses, submit_of_passes hlevel hpasses cache scene message⟩)

theorem fileOf_cases (s : Store) (plan : Plan) (caller : Option Caller) (scene : Scene) :
    fileOf s plan caller scene = (none, s) ∨ fileOf s plan caller scene = s.claim scene.occasion := by
  unfold fileOf
  split
  · exact Or.inr rfl
  · exact Or.inl rfl

theorem route_claims (s : Store) (cache : TemplateCache) (scene : Scene) (severity : Severity) (message : String)
    (o : Options) : ∃ d, (route s cache scene severity message o).outcome = .routed d ∧ d.severity = severity ∧
      d.Claims s scene.occasion (route s cache scene severity message o).store :=
  ⟨_, rfl, rfl, fileOf_cases s _ _ scene⟩

end Routing

namespace Logger
variable {ω : Type}

/-- The logger with one more suppressed message counted. -/
def countSuppressed (l : Logger ω) : Logger ω :=
  { l with metrics := l.metrics.recordSuppressed }

/-- A message is refused, counted as suppressed, or routed and delivered to the sinks. -/
theorem submit_cases (l : Logger ω) (s : Store) (w : ω) (scene : Scene) (message : String) (o : Options) :
    (∃ e, o.level = .error e ∧ l.submit s w scene message o = .error e) ∨
    (∃ severity, o.level = .ok severity ∧ severity.passes s.config.threshold = false ∧
      l.submit s w scene message o = .ok ⟨.suppressed, l.countSuppressed, s, w, 0⟩) ∨
    (∃ severity d templates store asked, o.level = .ok severity ∧ severity.passes s.config.threshold = true ∧
      d.Claims s scene.occasion store ∧
      l.submit s w scene message o = .ok ⟨.routed d,
        ⟨l.sinks, templates, l.metrics.recordDecision d (Sink.deliver d l.sinks w).1⟩, store,
        (Sink.deliver d l.sinks w).2, asked⟩) := by
  unfold submit
  rcases Routing.submit_cases s l.templates scene message o with
    ⟨e, hlevel, hsubmit⟩ | ⟨severity, hlevel, hpasses, hsubmit⟩ | ⟨severity, hlevel, hpasses, hsubmit⟩
  · exact Or.inl ⟨e, hlevel, by rw [hsubmit]; rfl⟩
  · exact Or.inr (Or.inl ⟨severity, hlevel, hpasses, by rw [hsubmit]; rfl⟩)
  · obtain ⟨d, hd, -, hclaims⟩ := Routing.route_claims s l.templates scene severity message o
    generalize Routing.route s l.templates scene severity message o = done at hsubmit hd hclaims
    refine Or.inr (Or.inr ⟨severity, d, done.templates, done.store, done.asked, hlevel, hpasses, hclaims, ?_⟩)
    simp only [hsubmit, bind, Except.bind, hd]
    rfl

theorem submit_eq_ok {l : Logger ω} {s : Store} {w : ω} {scene : Scene} {message : String} {o : Options}
    {done : Logged ω} (h : l.submit s w scene message o = .ok done) :
    done.logger.sinks = l.sinks ∧
      (done.outcome = .suppressed ∧ done.store = s ∧ done.world = w ∨
        ∃ d, done.outcome = .routed d ∧ d.Claims s scene.occasion done.store ∧
          done.world = (Sink.deliver d l.sinks w).2) := by
  rcases l.submit_cases s w scene message o with
    ⟨e, -, hsubmit⟩ | ⟨severity, -, -, hsubmit⟩ | ⟨severity, d, templates, store, asked, -, -, hclaims, hsubmit⟩
  · rw [hsubmit] at h
    cases h
  · rw [hsubmit] at h
    obtain rfl := Except.ok.inj h
    exact ⟨rfl, Or.inl ⟨rfl, rfl, rfl⟩⟩
  · rw [hsubmit] at h
    obtain rfl := Except.ok.inj h
    exact ⟨rfl, Or.inr ⟨d, rfl, hclaims, rfl⟩⟩

end Logger
end Logbook
