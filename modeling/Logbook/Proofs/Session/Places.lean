import Logbook.Proofs.Session.Suppression

/-! Messages that are logged at a place in a program. The place asks first whether the message would be suppressed, and
    where it would be, nothing is called; a call that names the place as the caller would do the rest by itself. Main
    statement: with calls in the place of places a run gives the same answers and the same session, but for the
    suppressed messages, which the calls count and the places do not. -/

namespace Logbook

/-- The call that logs the message of a place; all else is done as it is. -/
def Action.asCall : Action → Action
  | .logHere i message severity place line => .log i message (.ofCaller severity (.ofLocation place line))
  | a => a

/-- The logger, if any, to which a place does not log its message here because it would be suppressed. -/
def Moment.missed (m : Moment) : List Nat :=
  match m.action with
  | .logHere i _ severity _ _ =>
    if i < m.session.loggers.length ∧ m.session.store.config.threshold < severity then [i] else []
  | _ => []

namespace Logger
variable {ω : Type}

/-- The logger with `n` more suppressed messages counted. -/
def countMany (l : Logger ω) (n : Nat) : Logger ω :=
  { l with metrics := { l.metrics with suppressed := l.metrics.suppressed + .ofNat n } }

/-- A count is the same again after as many messages as a counter has values. -/
theorem countMany_eq_self_iff (l : Logger ω) (n : Nat) : l.countMany n = l ↔ UInt64.size ∣ n := by
  constructor
  · intro h
    have hcount : l.metrics.suppressed + .ofNat n = l.metrics.suppressed := congrArg (·.metrics.suppressed) h
    have hnat := congrArg UInt64.toNat hcount
    rw [UInt64.toNat_add, UInt64.toNat_ofNat'] at hnat
    have hlt := l.metrics.suppressed.toNat_lt
    refine Nat.dvd_of_mod_eq_zero (?_ : n % 18446744073709551616 = 0)
    omega
  · intro h
    have hzero : UInt64.ofNat n = 0 := UInt64.toNat_inj.mp (UInt64.toNat_ofNat'.trans (Nat.mod_eq_zero_of_dvd h))
    rw [countMany, hzero, UInt64.add_zero]

end Logger

namespace Session

/-- One more suppressed message is counted for each of these loggers. -/
def countAll (s : Session) (is : List Nat) : Session :=
  is.foldl countSuppressed s

/-- The loggers that messages were not logged to, once for each message since their counts last started. -/
def missed (moments : List Moment) : List Nat :=
  moments.foldl (fun is m => m.missed ++ is.filter fun i => !m.action.resetsMetrics i) []

/-- A run with places answers and ends as it does with calls. -/
def PlacesAsCalls (s : Session) (actions : List Action) : Prop :=
  s.run actions = s.run (actions.map Action.asCall)

/-- A message is logged at a place whose program, in state `p`, makes its text only if it is needed. -/
def logMade {σ : Type} (s : Session) (i : Nat) (make : σ → String × σ) (severity : Severity) (place : String)
    (line : Nat) (p : σ) : Session × σ :=
  if s.isEnabled i severity then
    let (message, p) := make p
    ((s.step (Action.logHere i message severity place line).asCall).2, p)
  else (s, p)

section
variable (s : Session)

/-! ### One action -/

theorem submit_of_not_lt {i : Nat} (hi : ¬i < s.loggers.length) (message : String) (o : Options) :
    s.submit i message o = (.ok .suppressed, s) := by
  unfold submit
  rw [List.getElem?_eq_none (Nat.le_of_not_lt hi)]

theorem isEnabled_eq_true_iff {i : Nat} {severity : Severity} :
    s.isEnabled i severity = true ↔ i < s.loggers.length ∧ severity.passes s.store.config.threshold = true := by
  simp [isEnabled, Logger.isEnabled]

/-- A message would not be suppressed exactly if submitting it comes to a decision. -/
theorem isEnabled_iff_routed {i : Nat} {severity : Severity} {o : Options} (h : o.severity = some severity)
    (message : String) :
    s.isEnabled i severity = true ↔ ∃ d, (s.submit i message o).1 = .ok (.routed d) := by
  rw [isEnabled_eq_true_iff]
  by_cases hi : i < s.loggers.length
  · have hfate := s.fate_submit hi message o
    generalize (s.submit i message o).1 = outcome, (s.submit i message o).2 = later at hfate ⊢
    have hseverity : o.severity.getD .information = severity := by rw [h]; rfl
    cases hfate with
    | refused level =>
      rw [Options.severity_of_level_error level] at hseverity
      subst hseverity
      simp [Severity.passes]
    | suppressed level passes =>
      rw [← hseverity, ← (Options.severity_of_level level).1, passes]
      simp
    | routed level passes d =>
      rw [← hseverity, ← (Options.severity_of_level level).1, passes]
      simp [hi]
  · rw [s.submit_of_not_lt hi]
    simp [hi]

/-- The call of a place that keeps its message does nothing but count it, unless the severity is `off`. -/
theorem submit_of_not_isEnabled {i : Nat} {severity : Severity} {o : Options} (h : o.severity = some severity)
    (henabled : s.isEnabled i severity = false) (message : String) :
    (s.submit i message o).2 =
      s.countAll (if i < s.loggers.length ∧ s.store.config.threshold < severity then [i] else []) := by
  by_cases hi : i < s.loggers.length
  · have hfate := s.fate_submit hi message o
    have hcause := hfate.suppressed_iff.1
    rw [show o.severity.getD .information = severity by rw [h]; rfl] at hcause
    have hrouted := (s.isEnabled_iff_routed h message).not.mp (by rw [henabled]; decide)
    generalize (s.submit i message o).1 = outcome, (s.submit i message o).2 = later at hfate hcause hrouted ⊢
    cases hfate with
    | refused level => rw [if_neg fun hlt => (by cases hcause.mpr hlt.2)]; rfl
    | suppressed level passes => rw [if_pos ⟨hi, hcause.mp rfl⟩]; rfl
    | routed level passes d => exact absurd ⟨d, rfl⟩ hrouted
  · rw [s.submit_of_not_lt hi, if_neg fun hlt => hi hlt.1]
    rfl

theorem step_asCall (a : Action) :
    s.step a.asCall = ((s.step a).1, (s.step a).2.countAll (Moment.missed ⟨s, a⟩)) := by
  cases a with
  | logHere i message severity place line =>
    cases henabled : s.isEnabled i severity with
    | true =>
      have hpasses := (s.isEnabled_eq_true_iff.mp henabled).2
      have hnot : ¬(i < s.loggers.length ∧ s.store.config.threshold < severity) := fun hlt =>
        Nat.not_lt_of_le (Severity.passes_iff.mp hpasses).2 hlt.2
      simp only [step, Action.asCall, henabled, if_true, Moment.missed, if_neg hnot]
      rfl
    | false =>
      have hcall := s.submit_of_not_isEnabled (o := .ofCaller severity (.ofLocation place line)) rfl henabled message
      simp only [step, Action.asCall, henabled, hcall]
      rfl
  | _ => rfl

theorem step_countAll (is : List Nat) (a : Action) :
    (s.countAll is).step a =
      ((s.step a).1, (s.step a).2.countAll (is.filter fun i => !a.resetsMetrics i)) := by
  induction is generalizing s with
  | nil => rfl
  | cons i is ih =>
    rw [countAll, List.foldl_cons, ← countAll, ih, step_countSuppressed]
    cases hreset : a.resetsMetrics i with
    | true => simp [hreset]
    | false => simp [hreset, countAll]

end

/-! ### Runs -/

theorem countAll_countAll (s : Session) (is js : List Nat) : (s.countAll is).countAll js = s.countAll (is ++ js) :=
  List.foldl_append.symm

theorem resetsMetrics_asCall (i : Nat) (a : Action) : a.asCall.resetsMetrics i = a.resetsMetrics i := by
  cases a <;> rfl

/-- A run with calls, in a session that has counted more messages already, has counted what the places missed
    besides. -/
theorem run_asCall (s : Session) (is : List Nat) (actions : List Action) :
    (s.countAll is).run (actions.map Action.asCall) =
      ((s.run actions).1, (s.run actions).2.countAll
        ((s.moments actions).foldl (fun is m => m.missed ++ is.filter fun i => !m.action.resetsMetrics i) is)) := by
  -- The surplus is carried along: a place that keeps its message adds to it, a reset takes from it.
  induction actions generalizing s is with
  | nil => rfl
  | cons a actions ih =>
    have hstep : (s.countAll is).step a.asCall = ((s.step a).1,
        (s.step a).2.countAll (Moment.missed ⟨s, a⟩ ++ is.filter fun i => !a.resetsMetrics i)) := by
      rw [step_countAll, step_asCall, countAll_countAll]
      simp only [resetsMetrics_asCall]
    simp only [List.map_cons, run, hstep, ih, moments, List.foldl_cons]

/-! ### Counts -/

theorem getElem?_countAll (s : Session) (is : List Nat) (i : Nat) :
    (s.countAll is).loggers[i]? = s.loggers[i]?.map fun l => l.countMany (is.count i) := by
  induction is generalizing s with
  | nil =>
    have hnone : (fun l : Logger World => l.countMany 0) = id := by
      funext l
      simp [Logger.countMany]
    simp [countAll, hnone]
  | cons j is ih =>
    rw [countAll, List.foldl_cons, ← countAll, ih, getElem?_countSuppressed, Option.map_map]
    refine congrArg (Option.map · s.loggers[i]?) (funext fun l => ?_)
    by_cases hij : j = i
    · simp [hij, Logger.countMany, Logger.countSuppressed, Metrics.recordSuppressed, UInt64.add_assoc,
        UInt64.add_comm]
    · simp [hij]

theorem countAll_withLoggers (s : Session) (is : List Nat) :
    s.countAll is = { s with loggers := (s.countAll is).loggers } := by
  induction is generalizing s with
  | nil => rfl
  | cons i is ih => exact ih (s.countSuppressed i)

theorem countAll_eq_self_iff (s : Session) (is : List Nat) :
    s.countAll is = s ↔ ∀ i < s.loggers.length, UInt64.size ∣ is.count i := by
  constructor
  · intro h i hi
    have hlogger := s.getElem?_countAll is i
    rw [h, List.getElem?_eq_getElem hi] at hlogger
    exact (Logger.countMany_eq_self_iff _ _).mp (Option.some.inj hlogger).symm
  · intro h
    have hloggers : (s.countAll is).loggers = s.loggers := by
      refine List.ext_getElem? fun i => ?_
      rw [getElem?_countAll]
      by_cases hi : i < s.loggers.length
      · rw [List.getElem?_eq_getElem hi, Option.map_some, (Logger.countMany_eq_self_iff _ _).mpr (h i hi)]
      · rw [List.getElem?_eq_none (Nat.le_of_not_lt hi), Option.map_none]
    rw [countAll_withLoggers, hloggers]

/-- Calls in the place of places answer the same and leave the same session, but for the suppressed messages of each
    logger: the calls have counted, since its counts last started, those that the places missed besides. So a run with
    places is that with calls exactly where no logger missed any message, up to full turns of its counter. A place logs
    its message exactly if submitting it comes to a decision. It makes the text of no other message, and for the session
    it is the same whether the text was there before or is made only then. -/
theorem placesAsCalls_iff (s : Session) (actions : List Action) :
    s.run (actions.map Action.asCall) =
      ((s.run actions).1, (s.run actions).2.countAll (missed (s.moments actions))) ∧
    (s.PlacesAsCalls actions ↔
      ∀ i < (s.run actions).2.loggers.length, UInt64.size ∣ (missed (s.moments actions)).count i) ∧
    (∀ (i : Nat) (severity : Severity) (message : String) (o : Options), o.severity = some severity →
      (s.isEnabled i severity = true ↔ ∃ d, (s.submit i message o).1 = .ok (.routed d))) ∧
    ∀ {σ : Type} (i : Nat) (make : σ → String × σ) (severity : Severity) (place : String) (line : Nat) (p : σ),
      s.logMade i make severity place line p =
        ((s.step (.logHere i (make p).1 severity place line)).2,
          if s.isEnabled i severity then (make p).2 else p) := by
  have hrun := s.run_asCall [] actions
  refine ⟨hrun, ?_, fun i severity message o h => s.isEnabled_iff_routed h message,
    fun i make severity place line p => ?_⟩
  · unfold PlacesAsCalls
    rw [show s.run (actions.map Action.asCall) = _ from hrun, ← countAll_eq_self_iff]
    constructor
    · intro h
      exact (congrArg Prod.snd h).symm
    · intro h
      exact Prod.ext rfl h.symm
  · unfold logMade
    cases henabled : s.isEnabled i severity with
    | true => simp [step, henabled, Action.asCall]
    | false => simp [step, henabled]

/-- A debug message below the threshold: called for, it is counted; at its place it is not. -/
theorem not_placesAsCalls_debug :
    let occasion : Occasion := ⟨⟨"/srv"⟩, ⟨0, 0, 0⟩⟩
    let s : Session := {
      store := .initial occasion, source := .given, loggers := [.ofSinks []], templates := default,
      world := ⟨.empty ["srv"], ⟨"", "", true⟩, [], []⟩, resolver := .console occasion.base,
      clock := ⟨occasion.now, false⟩, loggerClock := ⟨occasion.now, false⟩, program := .console occasion.base,
      systemTime := occasion.now, asked := 0 }
    ¬s.PlacesAsCalls [.logHere 0 "x" .debug "place" 1] ∧
      ((s.run [.logHere 0 "x" .debug "place" 1]).2.loggers.map (·.metrics.suppressed)) = [0] ∧
      ((s.run [Action.asCall (.logHere 0 "x" .debug "place" 1)]).2.loggers.map (·.metrics.suppressed)) = [1] := by
  intro occasion s
  refine ⟨fun h => ?_, rfl, rfl⟩
  have hcounts := congrArg (fun r => r.2.loggers.map (·.metrics.suppressed)) h
  exact absurd hcounts (by decide)

end Session
end Logbook
