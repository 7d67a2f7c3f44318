import Mathlib.Data.List.Basic
import Logbook.Proofs.Session.Runs
import Logbook.Proofs.Submission

/-! Messages that go nowhere: those that the threshold suppresses, and those that ask for the severity `off`. What is
    left of a suppressed message is one count of its logger, and no action looks at that count. Main statement: such a
    message can be taken out of a session, and nothing else shows that it is gone. -/

namespace Logbook

/-! ### Counts of suppressed messages -/

namespace Metrics

theorem recordDecision_recordSuppressed (m : Metrics) (d : Decision) (failures : Nat) :
    m.recordSuppressed.recordDecision d failures = (m.recordDecision d failures).recordSuppressed := by
  have hfailures : ∀ n (m : Metrics),
      Nat.repeat recordSinkFailure n m.recordSuppressed = (Nat.repeat recordSinkFailure n m).recordSuppressed := by
    intro n m
    induction n with
    | zero => rfl
    | succ n ih => rw [Nat.repeat, ih]; rfl
  unfold recordDecision
  rw [← hfailures]
  cases d.file.isSome <;> rfl

end Metrics

namespace Logger
variable {ω : Type}

/-- A logger that has counted one more suppressed message does the same, and has counted one more afterwards. -/
theorem submit_countSuppressed (l : Logger ω) (s : Store) (w : ω) (scene : Scene) (message : String) (o : Options) :
    l.countSuppressed.submit s w scene message o =
      (l.submit s w scene message o).map fun done => { done with logger := done.logger.countSuppressed } := by
  unfold submit countSuppressed
  cases Routing.submit s l.templates scene message o with
  | error e => rfl
  | ok done =>
    cases houtcome : done.outcome with
    | suppressed => simp [bind, Except.bind, pure, Except.pure, Except.map, houtcome]
    | routed d =>
      simp [bind, Except.bind, pure, Except.pure, Except.map, houtcome, Metrics.recordDecision_recordSuppressed]

end Logger

namespace Options
variable {o : Options}

theorem severity_of_level {severity : Severity} (h : o.level = .ok severity) :
    severity = o.severity.getD .information ∧ severity ≠ .off := by
  have hlevel : (o.severity.getD .information).messageLevel = .ok severity := h
  unfold Severity.messageLevel at hlevel
  split at hlevel
  · cases hlevel
  · next hoff =>
    obtain rfl := Except.ok.inj hlevel
    exact ⟨rfl, hoff⟩

theorem severity_of_level_error {e : Error} (h : o.level = .error e) : o.severity.getD .information = .off := by
  have hlevel : (o.severity.getD .information).messageLevel = .error e := h
  unfold Severity.messageLevel at hlevel
  split at hlevel
  · next hoff => exact hoff
  · cases hlevel

end Options

/-- The logger that an action submits a message to. -/
def Action.logger? : Action → Option Nat
  | .submit i _ _ | .log i _ _ => some i
  | _ => none

/-- What is asked for with the message that an action submits. -/
def Action.options? : Action → Option Options
  | .submit _ _ o | .log _ _ o | .route _ o => some o
  | _ => none

/-- The action starts the counts of logger number `i` again. -/
def Action.resetsMetrics (i : Nat) : Action → Bool
  | .resetMetrics j => j == i
  | _ => false

namespace Session
variable {s : Session} {a : Action}

/-- What becomes of the message that an action submits, to a logger that there is or past all of them. A message that
    is logged at a place in a program is not submitted at all where it would be suppressed or refused. -/
def outcome? (s : Session) : Action → Option (Except Error Outcome)
  | .submit i message o | .log i message o => if i < s.loggers.length then some (s.submit i message o).1 else none
  | .route message o => some (s.route message o).1
  | _ => none

/-- The session with one more suppressed message counted for logger number `i`. -/
def countSuppressed (s : Session) (i : Nat) : Session :=
  { s with loggers := s.loggers.modify i Logger.countSuppressed }

/-! ### What becomes of a message -/

theorem loggers_set {i : Nat} {logger : Logger World} (h : s.loggers[i]? = some logger)
    (f : Logger World → Logger World) :
    s.loggers.set i (f logger) = s.loggers.modify i f := by
  rw [List.modify_eq_set_getElem?, h]
  rfl

/-- What becomes of a message that logger number `logger?`, or the router if there is none, is given: its outcome and
    the session after it. Only a message that is routed can do more than be counted. -/
inductive Fate (s : Session) (logger? : Option Nat) (o : Options) : Except Error Outcome → Session → Prop where
  | refused {e : Error} (level : o.level = .error e) : Fate s logger? o (.error e) s
  | suppressed {severity : Severity} (level : o.level = .ok severity)
      (passes : severity.passes s.store.config.threshold = false) :
      Fate s logger? o (.ok .suppressed) ((logger?.map s.countSuppressed).getD s)
  | routed {severity : Severity} (level : o.level = .ok severity)
      (passes : severity.passes s.store.config.threshold = true) (d : Decision) (later : Session) :
      Fate s logger? o (.ok (.routed d)) later

/-- Whether a message is suppressed or refused follows from its severity and the threshold alone. -/
theorem Fate.suppressed_iff {logger? : Option Nat} {o : Options} {outcome : Except Error Outcome} {later : Session}
    (h : Fate s logger? o outcome later) :
    (outcome = .ok .suppressed ↔ s.store.config.threshold < o.severity.getD .information) ∧
      ((∃ e, outcome = .error e) ↔ o.severity.getD .information = .off) := by
  cases h with
  | refused level =>
    rw [Options.severity_of_level_error level]
    exact ⟨iff_of_false (fun h => by cases h) (Nat.not_lt_zero _), iff_of_true ⟨_, rfl⟩ rfl⟩
  | suppressed level passes =>
    obtain ⟨rfl, hoff⟩ := Options.severity_of_level level
    have hlt : s.store.config.threshold < o.severity.getD .information := by
      refine Nat.lt_of_not_le fun hle => ?_
      rw [Severity.passes_iff.mpr ⟨hoff, hle⟩] at passes
      cases passes
    exact ⟨iff_of_true rfl hlt, iff_of_false (fun ⟨e, h⟩ => by cases h) hoff⟩
  | routed level passes d later =>
    obtain ⟨rfl, hoff⟩ := Options.severity_of_level level
    have hle := (Severity.passes_iff.mp passes).2
    exact ⟨iff_of_false (fun h => by cases h) (Nat.not_lt_of_le hle), iff_of_false (fun ⟨e, h⟩ => by cases h) hoff⟩

theorem fate_submit {i : Nat} (hi : i < s.loggers.length) (message : String) (o : Options) :
    Fate s (some i) o (s.submit i message o).1 (s.submit i message o).2 := by
  obtain ⟨logger, hlogger⟩ : ∃ logger, s.loggers[i]? = some logger := ⟨_, List.getElem?_eq_getElem hi⟩
  unfold submit
  simp only [hlogger]
  rcases logger.submit_cases s.store s.world (s.scene s.source) message o with
    ⟨e, hlevel, hsubmit⟩ | ⟨severity, hlevel, hpasses, hsubmit⟩ |
    ⟨severity, d, templates, store, asked, hlevel, hpasses, -, hsubmit⟩
  · rw [hsubmit]
    exact .refused hlevel
  · have hcounted : ({ s with loggers := s.loggers.set i logger.countSuppressed,
                              asked := s.asked + questions s.source 0 } : Session) = s.countSuppressed i := by
      rw [loggers_set hlogger, questions, ite_self]
      rfl
    rw [hsubmit]
    dsimp only
    rw [hcounted]
    exact .suppressed hlevel hpasses
  · rw [hsubmit]
    exact .routed hlevel hpasses d _

theorem fate_route (s : Session) (message : String) (o : Options) :
    Fate s none o (s.route message o).1 (s.route message o).2 := by
  unfold route
  rcases Routing.submit_cases s.store s.templates (s.scene .given) message o with
    ⟨e, hlevel, hsubmit⟩ | ⟨severity, hlevel, hpasses, hsubmit⟩ | ⟨severity, hlevel, hpasses, hsubmit⟩
  · rw [hsubmit]
    exact .refused hlevel
  · rw [hsubmit]
    exact .suppressed hlevel hpasses
  · obtain ⟨d, hd, -⟩ := Routing.route_claims s.store s.templates (s.scene .given) severity message o
    rw [hsubmit]
    dsimp only
    rw [hd]
    exact .routed hlevel hpasses d _

theorem fate_step {outcome : Except Error Outcome} (h : s.outcome? a = some outcome) :
    ∃ o, a.options? = some o ∧ Fate s a.logger? o outcome (s.step a).2 := by
  cases a with
  | submit i message o =>
    obtain ⟨hi, h⟩ := Option.ite_none_right_eq_some.mp h
    obtain rfl := Option.some.inj h
    exact ⟨o, rfl, fate_submit hi message o⟩
  | log i message o =>
    obtain ⟨hi, h⟩ := Option.ite_none_right_eq_some.mp h
    obtain rfl := Option.some.inj h
    exact ⟨o, rfl, fate_submit hi message o⟩
  | route message o =>
    obtain rfl := Option.some.inj h
    exact ⟨o, rfl, s.fate_route message o⟩
  | _ => cases h

/-! ### No action looks at the count -/

section
variable (s : Session) (i : Nat)

theorem getElem?_countSuppressed (j : Nat) :
    (s.countSuppressed i).loggers[j]? = s.loggers[j]?.map fun l => if i = j then l.countSuppressed else l :=
  List.getElem?_modify _ _ _ _

theorem submit_countSuppressed (j : Nat) (message : String) (o : Options) :
    (s.countSuppressed i).submit j message o =
      ((s.submit j message o).1, (s.submit j message o).2.countSuppressed i) := by
  have hscene : (s.countSuppressed i).scene (s.countSuppressed i).source = s.scene s.source := by
    show (s.countSuppressed i).scene s.source = s.scene s.source
    cases s.source <;> rfl
  have hstore : (s.countSuppressed i).store = s.store := rfl
  have hworld : (s.countSuppressed i).world = s.world := rfl
  unfold submit
  rw [getElem?_countSuppressed, hscene, hstore, hworld]
  cases s.loggers[j]? with
  | none => rfl
  | some logger =>
    have hsubmit : (if i = j then logger.countSuppressed else logger).submit s.store s.world (s.scene s.source)
        message o = (logger.submit s.store s.world (s.scene s.source) message o).map fun done =>
          { done with logger := if i = j then done.logger.countSuppressed else done.logger } := by
      split
      · exact logger.submit_countSuppressed _ _ _ _ _
      · cases logger.submit s.store s.world (s.scene s.source) message o <;> rfl
    have hset (done : Logger World) : (s.loggers.modify i Logger.countSuppressed).set j
        (if i = j then done.countSuppressed else done) = (s.loggers.set j done).modify i Logger.countSuppressed := by
      simp only [List.set_eq_modify]
      split
      · next hij => rw [hij, List.modify_modify_eq, List.modify_modify_eq]; rfl
      · next hij => rw [List.modify_modify_ne _ _ _ hij]
    simp only [Option.map_some, hsubmit]
    cases logger.submit s.store s.world (s.scene s.source) message o with
    | error e => rfl
    | ok done => simp only [Except.map, countSuppressed, hset]

theorem route_countSuppressed (message : String) (o : Options) :
    (s.countSuppressed i).route message o =
      ((s.route message o).1, (s.route message o).2.countSuppressed i) := by
  have hsubmit : Routing.submit (s.countSuppressed i).store (s.countSuppressed i).templates
      ((s.countSuppressed i).scene .given) message o =
        Routing.submit s.store s.templates (s.scene .given) message o := rfl
  unfold route
  rw [hsubmit]
  cases Routing.submit s.store s.templates (s.scene .given) message o <;> rfl

theorem change_countSuppressed (u : Store.Update) :
    (s.countSuppressed i).change u = ((s.change u).1, (s.change u).2.countSuppressed i) := rfl

theorem changeFiles_countSuppressed (r : Except Refusal FileSystem) :
    (s.countSuppressed i).changeFiles r = ((s.changeFiles r).1, (s.changeFiles r).2.countSuppressed i) := by
  cases r <;> rfl

theorem load_countSuppressed (path : Path) :
    (s.countSuppressed i).load path = ((s.load path).1, (s.load path).2.countSuppressed i) := by
  have hworld : (s.countSuppressed i).world = s.world := rfl
  unfold load
  rw [hworld]
  cases s.world.files.readText path with
  | error refusal => rfl
  | ok json => exact s.change_countSuppressed i _

theorem save_countSuppressed (path : Path) :
    (s.countSuppressed i).save path = ((s.save path).1, (s.save path).2.countSuppressed i) := by
  have hstore : (s.countSuppressed i).store = s.store := rfl
  have hworld : (s.countSuppressed i).world = s.world := rfl
  unfold save
  rw [hstore, hworld]
  cases s.world.files.write path s.store.config.toJsonText.toUTF8 <;> rfl

theorem flush_countSuppressed (j : Nat) :
    (s.countSuppressed i).flush j = ((s.flush j).1, (s.flush j).2.countSuppressed i) := by
  unfold flush
  rw [getElem?_countSuppressed]
  cases s.loggers[j]? with
  | none => rfl
  | some logger =>
    have hflush : (if i = j then logger.countSuppressed else logger).flush = logger.flush := by split <;> rfl
    simp only [Option.map_some, hflush]
    rfl

theorem flushEvery_modify (loggers : List (Logger World)) (w : World) :
    flushEvery (loggers.modify i Logger.countSuppressed) w = flushEvery loggers w := by
  have hflush : ∀ loggers : List (Logger World),
      flushEvery loggers w = (loggers.map Logger.sinks).foldl (fun w sinks => (Sink.flushAll sinks w).2) w := by
    intro loggers
    rw [flushEvery, List.foldl_map]
    rfl
  have hsinks : (loggers.modify i Logger.countSuppressed).map Logger.sinks = loggers.map Logger.sinks := by
    refine List.ext_getElem? fun j => ?_
    rw [List.getElem?_map, List.getElem?_map, List.getElem?_modify]
    cases loggers[j]? with
    | none => rfl
    | some logger => by_cases hij : i = j <;> simp [hij, Logger.countSuppressed]
  rw [hflush, hflush, hsinks]

theorem modify_metrics_countSuppressed (j : Nat) (loggers : List (Logger World)) :
    (loggers.modify i Logger.countSuppressed).modify j (fun l => { l with metrics := .zero }) =
      if j == i then loggers.modify j fun l => { l with metrics := .zero }
      else (loggers.modify j fun l => { l with metrics := .zero }).modify i Logger.countSuppressed := by
  cases hij : j == i
  · rw [List.modify_modify_ne _ _ _ (Ne.symm (by simpa using hij))]
    rfl
  · rw [eq_of_beq hij, List.modify_modify_eq]
    rfl

/-- A session that has counted one more suppressed message goes on as it would otherwise, and has counted one more
    until the counts start again. -/
theorem step_countSuppressed (a : Action) :
    (s.countSuppressed i).step a =
      ((s.step a).1, if a.resetsMetrics i then (s.step a).2 else (s.step a).2.countSuppressed i) := by
  cases a with
  | patch p => exact congrArg (Prod.map Reply.done id) (s.change_countSuppressed i (.patch p s.occasion))
  | replace c =>
    exact congrArg (Prod.map Reply.done id) (s.change_countSuppressed i (.replace c s.occasion))
  | load path => exact congrArg (Prod.map Reply.done id) (s.load_countSuppressed i path)
  | save path => exact congrArg (Prod.map Reply.done id) (s.save_countSuppressed i path)
  | submit j message o =>
    exact congrArg (Prod.map Reply.outcome id) (s.submit_countSuppressed i j message o)
  | log j message o =>
    exact congrArg (Prod.map (fun _ => Reply.done (.ok ())) id) (s.submit_countSuppressed i j message o)
  | route message o => exact congrArg (Prod.map Reply.outcome id) (s.route_countSuppressed i message o)
  | logHere j message severity place line =>
    have henabled : (s.countSuppressed i).isEnabled j severity = s.isEnabled j severity := by
      simp [isEnabled, countSuppressed]
    simp only [step, henabled]
    cases s.isEnabled j severity with
    | false => rfl
    | true =>
      exact congrArg (Prod.map (fun _ => Reply.done (.ok ())) id) (s.submit_countSuppressed i j message _)
  | flush j => exact congrArg (Prod.map Reply.done id) (s.flush_countSuppressed i j)
  | resetMetrics j =>
    simp only [step, Action.resetsMetrics, countSuppressed, modify_metrics_countSuppressed]
    obtain hij | hij := Bool.eq_false_or_eq_true (j == i) <;> simp [hij]
  | writeFile path bytes =>
    exact congrArg (Prod.map Reply.done id) (s.changeFiles_countSuppressed i (s.world.files.write path bytes))
  | removeFile path =>
    exact congrArg (Prod.map Reply.done id) (s.changeFiles_countSuppressed i (s.world.files.remove path))
  | dropAll => simp only [step, Action.resetsMetrics, countSuppressed, flushEvery_modify]; rfl
  | _ => rfl

end

/-! ### Sessions without the message -/

theorem run_countSuppressed (s : Session) (i : Nat) (actions : List Action) :
    (s.countSuppressed i).run actions =
      ((s.run actions).1, if actions.any (·.resetsMetrics i) then (s.run actions).2
        else (s.run actions).2.countSuppressed i) := by
  induction actions generalizing s with
  | nil => rfl
  | cons a actions ih =>
    simp only [run, step_countSuppressed, List.any_cons]
    obtain hreset | hreset := Bool.eq_false_or_eq_true (a.resetsMetrics i)
    · simp only [hreset, if_true, Bool.true_or]
    · simp only [hreset, Bool.false_eq_true, if_false, ih, Bool.false_or]

/-- A message that is suppressed or refused leaves no trace. Taken out of a session, it is gone from the answers, and
    every other answer is the same. The session after it is the same too, but for the logger that suppressed the
    message: it has counted one more, unless its counts started again since. Whether a message is suppressed or refused
    follows from its severity and the threshold, whatever else is asked for with it. -/
theorem inert_run (s : Session) (before after : List Action) (a : Action) {outcome : Except Error Outcome}
    (ha : (s.run before).2.outcome? a = some outcome) (hinert : ∀ d, outcome ≠ .ok (.routed d)) :
    (s.run (before ++ after)).1 = (s.run (before ++ a :: after)).1.eraseIdx before.length ∧
    (∀ e, outcome = .error e → (s.run (before ++ a :: after)).2 = (s.run (before ++ after)).2) ∧
    (outcome = .ok .suppressed → (s.run (before ++ a :: after)).2 =
      match a.logger? with
      | none => (s.run (before ++ after)).2
      | some i =>
        if after.any (·.resetsMetrics i) then (s.run (before ++ after)).2
        else (s.run (before ++ after)).2.countSuppressed i) ∧
    ∀ (t : Session) (b : Action) (o : Options) (answer : Except Error Outcome),
      b.options? = some o → t.outcome? b = some answer →
        (answer = .ok .suppressed ↔ t.store.config.threshold < o.severity.getD .information) ∧
        ((∃ e, answer = .error e) ↔ o.severity.getD .information = .off) := by
  have hcause : ∀ (t : Session) (b : Action) (o : Options) (answer : Except Error Outcome),
      b.options? = some o → t.outcome? b = some answer →
        (answer = .ok .suppressed ↔ t.store.config.threshold < o.severity.getD .information) ∧
        ((∃ e, answer = .error e) ↔ o.severity.getD .information = .off) := by
    intro t b o answer hb hanswer
    obtain ⟨o', ho', hfate⟩ := fate_step hanswer
    obtain rfl := Option.some.inj (hb.symm.trans ho')
    exact hfate.suppressed_iff
  obtain ⟨o, -, hfate⟩ := fate_step ha
  rw [← and_assoc, ← and_assoc]
  refine ⟨?_, hcause⟩
  rw [run_append, run_append, List.eraseIdx_append_of_length_le (Nat.le_of_eq (s.length_run before)), s.length_run,
    Nat.sub_self, and_assoc]
  simp only [run, List.eraseIdx_cons_zero, List.append_cancel_left_eq]
  generalize (s.run before).2 = now at hfate ⊢
  generalize (now.step a).2 = later at hfate ⊢
  cases hfate with
  | refused level => exact ⟨rfl, fun _ _ => rfl, fun h => (by cases h)⟩
  | suppressed level passes =>
    cases a.logger? with
    | none => exact ⟨rfl, fun _ _ => rfl, fun _ => rfl⟩
    | some i =>
      have hcounted := now.run_countSuppressed i after
      exact ⟨(congrArg Prod.fst hcounted).symm, fun e h => (by cases h), fun _ => congrArg Prod.snd hcounted⟩
  | routed level passes d later => exact absurd rfl (hinert d)

/-- A verbose message, which asks for a template of its own and for the log file, is suppressed between a reset and a
    message that is written: only its logger has noticed. -/
theorem inert_run_verbose :
    let occasion : Occasion := ⟨⟨"/srv"⟩, ⟨0, 0, 0⟩⟩
    let s : Session := {
      store := .initial occasion, source := .given, loggers := [.ofSinks [.file true]], templates := default,
      world := ⟨.empty ["srv"], ⟨"", "", true⟩, [], []⟩, resolver := .console occasion.base,
      clock := ⟨occasion.now, false⟩, loggerClock := ⟨occasion.now, false⟩, program := .console occasion.base,
      systemTime := occasion.now, asked := 0 }
    let written : Options := { Options.none with template := some "\x7bMessage\x7d", writeToFile := some true }
    let verbose : Options := { written with severity := some .verbose }
    (s.run [.reset, .submit 0 "one" verbose, .submit 0 "two" written]).2 =
      (s.run [.reset, .submit 0 "two" written]).2.countSuppressed 0 := by
  intro occasion s written verbose
  have hsuppressed : (s.run [.reset]).2.outcome? (.submit 0 "one" verbose) = some (.ok .suppressed) := rfl
  exact (inert_run s [.reset] [.submit 0 "two" written] (.submit 0 "one" verbose) hsuppressed (by simp)).2.2.1 rfl

end Session
end Logbook
