import Mathlib.Tactic.MkIffOfInductiveProp
import Logbook.Proofs.FileSystem.Contents
import Logbook.Proofs.Store.Derived
import Logbook.Proofs.Submission
import Logbook.Session

/-! Steady stretches of a session: messages are submitted and the configuration is changed, while the settings of the
    file and the directory stay, the day does not go back, and the sinks take what they are given. Main statement: a
    steady action either writes nothing, or writes the line of one decision as the store granted it. -/

namespace Logbook

/-- The decision that a reply tells of. -/
def Reply.decision? : Reply → Option Decision
  | .outcome (.ok o) => o.decision?
  | _ => none

/-- A message is submitted, the configuration is changed, or the circumstances are. -/
def Action.isOrdinary : Action → Bool
  | .submit .. | .patch _ | .replace _ | .reset | .setClock _ | .setResolver _ => true
  | _ => false

namespace Session

/-- The number of the day on which the store finds the path of the log file. -/
def today (s : Session) : Int :=
  s.occasion.now.dayNumber

/-- The path of the log file on a day, as the settings are now. -/
def pathOn (s : Session) (day : Int) : Path :=
  logPath s.store.config.file.name s.store.config.file.includeDate s.occasion.base (Date.ofDayNumber day)

/-- Every logger has one sink, which writes to files, and the store came about while files lay under the directory of
    now. -/
structure Filing (s : Session) : Prop where
  sinks : ∀ logger ∈ s.loggers, ∃ makeDirectories, logger.sinks = [Sink.file makeDirectories]
  store : s.store.ReachableUnder s.occasion.base

/-- The logger that a message is submitted to. -/
def addressee (s : Session) : Action → Option (Logger World)
  | .submit i _ _ => s.loggers[i]?
  | _ => none

/-- An ordinary action that leaves the settings of the file and the directory alone. The day does not go back, and a
    decision is taken by the sinks it is given to. -/
@[mk_iff] structure SteadyStep (s : Session) (a : Action) : Prop where
  ordinary : a.isOrdinary = true
  sameFile : s.store.config.sameFile (s.step a).2.store.config = true
  sameBase : (s.step a).2.occasion.base = s.occasion.base
  days : s.today ≤ (s.step a).2.today
  taken : ∀ logger ∈ s.addressee a, ∀ d ∈ (s.step a).1.decision?, ∀ sink ∈ logger.sinks,
    (sink.write d s.world).1 = .taken

instance (s : Session) (a : Action) : Decidable (s.SteadyStep a) :=
  decidable_of_iff' _ (steadyStep_iff s a)

/-- Every action is a steady one when its turn comes. -/
def Steady (s : Session) : List Action → Prop
  | [] => True
  | a :: actions => s.SteadyStep a ∧ (s.step a).2.Steady actions

instance decidableSteady (s : Session) : (actions : List Action) → Decidable (s.Steady actions)
  | [] => inferInstanceAs (Decidable True)
  | a :: actions =>
    have := decidableSteady (s.step a).2 actions
    inferInstanceAs (Decidable (s.SteadyStep a ∧ (s.step a).2.Steady actions))

/-- The action wrote nothing. The store has its path as before, or found it again. -/
structure Quiet (s : Session) (a : Action) : Prop where
  ungranted : (s.step a).1.decision?.bind (·.file) = none
  files : (s.step a).2.world.files = s.world.files
  store : (s.step a).2.store.path = s.store.path ∧ (s.step a).2.store.written = s.store.written ∨
    (s.step a).2.occasion = s.occasion ∧ (s.step a).2.store.path = s.pathOn s.today ∧
      (s.step a).2.store.written = (s.store.written && (s.pathOn s.today).sameSteps s.store.path)

/-- The action wrote the line of decision `d` as the store granted it. -/
structure Writes (s : Session) (a : Action) (d : Decision) (grant : FileGrant) : Prop where
  decision : (s.step a).1.decision? = some d
  granted : d.file = some grant
  occasion : (s.step a).2.occasion = s.occasion
  store : s.store.claim s.occasion = (some grant, (s.step a).2.store)
  files : ∃ place, (s.step a).2.world.files.locate grant.path = .ok place ∧
    s.world.files.Wrote (s.step a).2.world.files place
      (Sink.lineAdded grant.mode (s.world.files.content? place) d.text)

/-! ### What an ordinary action does -/

section
variable (s : Session)

@[simp] theorem occasion_scene (source : Source) : (s.scene source).occasion = s.occasion := by
  cases source <;> rfl

/-- A change that is what a request comes to is that request. -/
theorem change_eq_request (u : Store.Update) (r : Store.Request)
    (h : s.store.step s.occasion r = s.store.changed u) :
    s.change u = ((s.change u).1, { s with store := (s.store.step s.occasion r).2 }) := by
  rw [h]
  rfl

/-- An ordinary action makes a request other than a claim, or submits a message, or changes the circumstances. -/
theorem ordinary_cases {a : Action} (h : a.isOrdinary = true) :
    (∃ r answer, r ≠ .claim ∧ s.step a = (.done answer, { s with store := (s.store.step s.occasion r).2 })) ∨
    (∃ i message o, a = .submit i message o) ∨
    (∃ clock loggerClock resolver, s.step a = (.done (.ok ()), { s with
      clock := clock, loggerClock := loggerClock, resolver := resolver })) := by
  cases a with
  | patch p =>
    have hpatch := s.change_eq_request (.patch p s.occasion) (.patch p) rfl
    exact Or.inl ⟨.patch p, (s.change (.patch p s.occasion)).1, by simp, by rw [step, hpatch]⟩
  | replace c =>
    have hreplace := s.change_eq_request (.replace c s.occasion) (.replace ⟨c, default⟩) rfl
    exact Or.inl ⟨.replace ⟨c, default⟩, (s.change (.replace c s.occasion)).1, by simp, by
      rw [step, hreplace]⟩
  | reset => exact Or.inl ⟨.reset, .ok (), by simp, rfl⟩
  | submit i message o => exact Or.inr (Or.inl ⟨i, message, o, rfl⟩)
  | setClock t => exact Or.inr (Or.inr ⟨_, _, _, rfl⟩)
  | setResolver r => exact Or.inr (Or.inr ⟨_, _, _, rfl⟩)
  | _ => cases h

theorem submit_cases (i : Nat) (message : String) (o : Options) :
    (∃ answer, (Reply.outcome answer).decision? = none ∧ s.submit i message o = (answer, s)) ∨
    (∃ logger done, s.loggers[i]? = some logger ∧
      logger.submit s.store s.world (s.scene s.source) message o = .ok done ∧
      s.submit i message o = (.ok done.outcome, { s with
        store := done.store, loggers := s.loggers.set i done.logger, world := done.world,
        asked := s.asked + questions s.source done.asked })) := by
  cases hlogger : s.loggers[i]? with
  | none => exact Or.inl ⟨.ok .suppressed, rfl, by simp [submit, hlogger]⟩
  | some logger =>
    cases hdone : logger.submit s.store s.world (s.scene s.source) message o with
    | error e => exact Or.inl ⟨.error e, rfl, by simp [submit, hlogger, hdone]⟩
    | ok done => exact Or.inr ⟨logger, done, rfl, hdone, by simp [submit, hlogger, hdone]⟩

theorem step_submit {i : Nat} {message : String} {o : Options} {answer : Except Error Outcome} {later : Session}
    (h : s.submit i message o = (answer, later)) : s.step (.submit i message o) = (.outcome answer, later) := by
  rw [step, h]

/-! ### What an action does to the store -/

theorem submit_store (i : Nat) (message : String) (o : Options) :
    (s.submit i message o).2.store = s.store ∨ ∃ r, (s.submit i message o).2.store = (s.store.step s.occasion r).2 := by
  rcases s.submit_cases i message o with ⟨answer, -, hsubmit⟩ | ⟨logger, done, -, hdone, hsubmit⟩
  · exact Or.inl (by rw [hsubmit])
  · rw [hsubmit]
    rcases (Logger.submit_eq_ok hdone).2 with ⟨-, hstore, -⟩ | ⟨d, -, hnone | hclaim, -⟩
    · exact Or.inl hstore
    · exact Or.inl (Prod.mk.inj hnone).2
    · refine Or.inr ⟨.claim, ?_⟩
      rw [occasion_scene] at hclaim
      exact (Prod.mk.inj hclaim).2

theorem route_store (message : String) (o : Options) :
    (s.route message o).2.store = s.store ∨ ∃ r, (s.route message o).2.store = (s.store.step s.occasion r).2 := by
  unfold route
  rcases Routing.submit_cases s.store s.templates (s.scene .given) message o with
    ⟨e, -, hsubmit⟩ | ⟨severity, -, -, hsubmit⟩ | ⟨severity, -, -, hsubmit⟩
  · exact Or.inl (by rw [hsubmit])
  · exact Or.inl (by rw [hsubmit])
  · obtain ⟨d, -, -, hclaims⟩ := Routing.route_claims s.store s.templates (s.scene .given) severity message o
    rw [hsubmit]
    rw [Decision.Claims, occasion_scene] at hclaims
    rcases hclaims with hnone | hclaim
    · exact Or.inl (Prod.mk.inj hnone).2
    · exact Or.inr ⟨.claim, (Prod.mk.inj hclaim).2⟩

/-- Whatever is done, at most one thing is asked of the store. -/
theorem store_step (a : Action) :
    (s.step a).2.store = s.store ∨ ∃ r, (s.step a).2.store = (s.store.step s.occasion r).2 := by
  cases a with
  | patch p => exact Or.inr ⟨.patch p, by rw [step, s.change_eq_request (.patch p s.occasion) (.patch p) rfl]⟩
  | replace c =>
    have hreplace := s.change_eq_request (.replace c s.occasion) (.replace ⟨c, default⟩) rfl
    exact Or.inr ⟨.replace ⟨c, default⟩, by rw [step, hreplace]⟩
  | reset => exact Or.inr ⟨.reset, rfl⟩
  | claim => exact Or.inr ⟨.claim, rfl⟩
  | load path =>
    rw [step, load]
    cases s.world.files.readText path with
    | error refusal => exact Or.inl rfl
    | ok json =>
      have hload := s.change_eq_request (.load json s.occasion) (.load (.ok json)) rfl
      exact Or.inr ⟨.load (.ok json), congrArg (·.2.store) hload⟩
  | submit i message o => exact s.submit_store i message o
  | log i message o => exact s.submit_store i message o
  | logHere i message severity place line =>
    rw [step]
    split
    · exact s.submit_store i message _
    · exact Or.inl rfl
  | route message o => exact s.route_store message o
  | save path =>
    rw [step, save]
    cases s.world.files.write path s.store.config.toJsonText.toUTF8 <;> exact Or.inl rfl
  | flush i =>
    rw [step, flush]
    cases s.loggers[i]? <;> exact Or.inl rfl
  | writeFile path bytes =>
    rw [step]
    cases s.world.files.write path bytes <;> exact Or.inl rfl
  | removeFile path =>
    rw [step]
    cases s.world.files.remove path <;> exact Or.inl rfl
  | _ => exact Or.inl rfl

theorem sinks_step {a : Action} (h : a.isOrdinary = true) :
    ∀ logger ∈ (s.step a).2.loggers, ∃ before ∈ s.loggers, logger.sinks = before.sinks := by
  intro logger hlogger
  rcases s.ordinary_cases h with ⟨r, answer, -, hstep⟩ | ⟨i, message, o, rfl⟩ | ⟨clock, loggerClock, resolver, hstep⟩
  · rw [hstep] at hlogger
    exact ⟨logger, hlogger, rfl⟩
  · rcases s.submit_cases i message o with ⟨answer, -, hsubmit⟩ | ⟨first, done, hfirst, hdone, hsubmit⟩
    · rw [s.step_submit hsubmit] at hlogger
      exact ⟨logger, hlogger, rfl⟩
    · rw [s.step_submit hsubmit] at hlogger
      rcases List.mem_or_eq_of_mem_set hlogger with hlogger | rfl
      · exact ⟨logger, hlogger, rfl⟩
      · exact ⟨first, List.mem_of_getElem? hfirst, (Logger.submit_eq_ok hdone).1⟩
  · rw [hstep] at hlogger
    exact ⟨logger, hlogger, rfl⟩

end

/-! ### What a steady action keeps -/

namespace SteadyStep
variable {s : Session} {a : Action}

theorem filing (h : s.SteadyStep a) (hs : s.Filing) : (s.step a).2.Filing where
  sinks logger hlogger := by
    obtain ⟨before, hbefore, hsinks⟩ := s.sinks_step h.ordinary logger hlogger
    rw [hsinks]
    exact hs.sinks before hbefore
  store := by
    rw [h.sameBase]
    rcases s.store_step a with hstore | ⟨r, hstore⟩
    · rw [hstore]
      exact hs.store
    · rw [hstore]
      exact hs.store.step rfl r

theorem pathOn (h : s.SteadyStep a) (day : Int) : (s.step a).2.pathOn day = s.pathOn day := by
  obtain ⟨hname, hdate⟩ := Store.sameFile_iff.mp h.sameFile
  rw [Session.pathOn, Session.pathOn, h.sameBase, ← hname, ← hdate]

end SteadyStep

/-! ### What a steady action writes -/

section
variable {s : Session} {a : Action}

theorem Quiet.of_step {reply : Reply} {later : Session} (h : s.step a = (reply, later))
    (hungranted : reply.decision?.bind (·.file) = none) (hfiles : later.world.files = s.world.files)
    (hstore : later.store = s.store) : s.Quiet a where
  ungranted := by rw [h, hungranted]
  files := by rw [h, hfiles]
  store := Or.inl (by rw [h, hstore]; exact ⟨rfl, rfl⟩)

/-- A request that leaves the settings of the file alone keeps the path or finds it again, and does not start the
    file over. -/
theorem Quiet.of_request {r : Store.Request} {answer : Except Error Unit} (hr : r ≠ .claim)
    (h : s.step a = (.done answer, { s with store := (s.store.step s.occasion r).2 }))
    (hfile : s.store.config.sameFile (s.step a).2.store.config = true) : s.Quiet a where
  ungranted := by rw [h]; rfl
  files := by rw [h]
  store := by
    have hafter : (s.step a).2.store = (s.store.entry s.occasion r).after := by rw [h]; rfl
    rw [hafter] at hfile ⊢
    rcases Store.entry_cases s.store s.occasion r with
      ⟨e, hentry⟩ | ⟨p, c, template, -, -, -, hentry⟩ | ⟨c, -, -, hentry⟩ | ⟨rfl, -⟩
    · rw [hentry]
      exact Or.inl ⟨rfl, rfl⟩
    · rw [hentry] at hfile ⊢
      cases hc : s.store.config.sameFile c
      · rw [hc] at hfile
        exact (Bool.false_ne_true (hc.symm.trans hfile)).elim
      · exact Or.inl ⟨rfl, rfl⟩
    · rw [hentry] at hfile ⊢
      have hsame : s.store.config.sameFile c = true := hfile
      have hpath : Store.pathOf c s.occasion = s.pathOn s.today := (Store.pathOf_congr hsame s.occasion).symm
      refine Or.inr ⟨by rw [h]; rfl, hpath, ?_⟩
      rw [Store.adopt_written, hsame, hpath, Bool.and_true]
    · exact absurd rfl hr

theorem files_of_taken {makeDirectories : Bool} {d : Decision} {w : World}
    (h : ((Sink.file makeDirectories).write d w).1 = .taken) :
    Sink.writeDecision makeDirectories d w.files =
      ((Sink.deliver d [Sink.file makeDirectories] w).2.files, none) := by
  simp only [Sink.deliver, Sink.file] at h ⊢
  rcases hwrite : Sink.writeDecision makeDirectories d w.files with ⟨files, _ | e⟩
  · rfl
  · rw [hwrite] at h
    cases h

theorem store_of_ungranted (hs : s.Filing) {later : Store} (h : (none, later) = s.store.claim s.occasion) :
    later = s.store := by
  have hreachable := hs.store.reachable
  have hgrant := hreachable.claim_isSome s.occasion
  rw [← h] at hgrant
  rw [hreachable.claim_of_not_isEnabled hgrant.symm] at h
  exact (Prod.mk.inj h).2

theorem submit_quiet_or_writes {i : Nat} {message : String} {o : Options} (hs : s.Filing)
    (h : s.SteadyStep (.submit i message o)) :
    s.Quiet (.submit i message o) ∨ ∃ d grant, s.Writes (.submit i message o) d grant := by
  rcases s.submit_cases i message o with ⟨answer, hnone, hsubmit⟩ | ⟨logger, done, hlogger, hdone, hsubmit⟩
  · exact Or.inl (.of_step (s.step_submit hsubmit) (by rw [hnone]; rfl) rfl rfl)
  have hstep := s.step_submit hsubmit
  rcases (Logger.submit_eq_ok hdone).2 with ⟨hsuppressed, hstore, hworld⟩ | ⟨d, hrouted, hclaims, hworld⟩
  · exact Or.inl (.of_step hstep (by rw [hsuppressed]; rfl) (congrArg World.files hworld) hstore)
  rw [hrouted] at hstep
  rw [Decision.Claims, occasion_scene] at hclaims
  obtain ⟨makeDirectories, hsinks⟩ := hs.sinks logger (List.mem_of_getElem? hlogger)
  have hwritten : Sink.writeDecision makeDirectories d s.world.files = (done.world.files, none) := by
    rw [hworld, hsinks]
    refine files_of_taken (h.taken logger hlogger d ?_ _ (by rw [hsinks]; exact List.mem_singleton_self _))
    rw [hstep]
    rfl
  cases hfile : d.file with
  | none =>
    rw [Sink.writeDecision, hfile] at hwritten
    refine Or.inl (.of_step hstep hfile (Prod.mk.inj hwritten).1.symm ?_)
    rcases hclaims with hnone | hclaim
    · exact (Prod.mk.inj hnone).2
    · rw [hfile] at hclaim
      exact store_of_ungranted hs hclaim
  | some grant =>
    refine Or.inr ⟨d, grant, by rw [hstep]; rfl, hfile, by rw [hstep]; rfl, ?_, ?_⟩
    · rw [hstep]
      rcases hclaims with hnone | hclaim
      · rw [hfile] at hnone
        cases (Prod.mk.inj hnone).1
      · rw [hfile] at hclaim
        exact hclaim.symm
    · rw [hstep]
      exact Sink.writeDecision_eq_none hfile hwritten

/-- A steady action writes nothing, or the line of one decision as it was granted. -/
theorem quiet_or_writes (hs : s.Filing) (h : s.SteadyStep a) : s.Quiet a ∨ ∃ d grant, s.Writes a d grant := by
  rcases s.ordinary_cases h.ordinary with
    ⟨r, answer, hr, hstep⟩ | ⟨i, message, o, rfl⟩ | ⟨clock, loggerClock, resolver, hstep⟩
  · exact Or.inl (.of_request hr hstep h.sameFile)
  · exact submit_quiet_or_writes hs h
  · exact Or.inl (.of_step hstep rfl rfl rfl)

end

end Session
end Logbook
