import Mathlib.Logic.Function.Basic
import Logbook.Proofs.Store.History
import Logbook.Proofs.Submission

/-! Desks: routers and loggers that write through one store, and the turns in which one of them is called or the store
    is asked for something. The loggers of a desk act on whatever world their sinks know. -/

namespace Logbook

/-! ### Turns -/

/-- What a logger can be called for. Only who submits is told the outcome, and a router is called for nothing else. -/
inductive Call where
  | submit (message : String) (o : Options)
  | log (severity : Severity) (message : String)
  | logFrom (severity : Severity) (message : String) (caller : Caller)
  | logCategory (severity : Severity) (category message : String)

namespace Call

def message : Call → String
  | .submit message _ => message
  | .log _ message => message
  | .logFrom _ message _ => message
  | .logCategory _ _ message => message

def options : Call → Options
  | .submit _ o => o
  | .log severity _ => .ofSeverity severity
  | .logFrom severity _ caller => .ofCaller severity caller
  | .logCategory severity category _ => .ofCategory severity category

end Call

/-- The one who is called. Routers and loggers are numbered. -/
inductive Addressee where
  | router (i : Nat)
  | logger (i : Nat)
deriving DecidableEq

/-- What a turn is about: a call, or a request to the store, which is the same for every addressee. -/
inductive Matter where
  | call (c : Call)
  | request (r : Store.Request)

structure Turn where
  scene : Scene
  addressee : Addressee
  matter : Matter

/-- What came of a turn: the outcome of a call, whoever is told of it, or the store's answer to a request. -/
inductive Answer where
  | outcome (r : Except Error Outcome)
  | granted (r : Except Error (Option FileGrant))

/-- A turn and what came of it. -/
structure Event where
  turn : Turn
  answer : Answer

/-- The outcome, if a call of logger number `i` had it. -/
def Event.outcome? (i : Nat) (e : Event) : Option (Except Error Outcome) :=
  match e.answer with
  | .outcome r => if e.turn.addressee = .logger i then some r else none
  | .granted _ => none

/-! ### Desks -/

/-- A store, the caches of the routers that go by it, the loggers that do, and the world of their sinks. -/
structure Desk (ω : Type) where
  store : Store
  routers : Nat → TemplateCache
  loggers : Nat → Logger ω
  world : ω

namespace Desk
variable {ω : Type}

/-- A router or a logger is called. -/
def call (desk : Desk ω) (scene : Scene) (c : Call) : Addressee → Except Error Outcome × Desk ω
  | .router i =>
    match Routing.submit desk.store (desk.routers i) scene c.message c.options with
    | .error e => (.error e, desk)
    | .ok done =>
      (.ok done.outcome,
        { desk with store := done.store, routers := Function.update desk.routers i done.templates })
  | .logger i =>
    match (desk.loggers i).submit desk.store desk.world scene c.message c.options with
    | .error e => (.error e, desk)
    | .ok done =>
      (.ok done.outcome,
        { desk with store := done.store, loggers := Function.update desk.loggers i done.logger, world := done.world })

def step (desk : Desk ω) (t : Turn) : Answer × Desk ω :=
  match t.matter with
  | .call c => let (r, desk) := desk.call t.scene c t.addressee; (.outcome r, desk)
  | .request r => let (g, store) := desk.store.step t.scene.occasion r; (.granted g, { desk with store := store })

/-- The desk after turns that were taken one after the other. -/
def run (desk : Desk ω) : List Turn → Desk ω
  | [] => desk
  | t :: turns => (desk.step t).2.run turns

/-- The turns and what came of them. -/
def history (desk : Desk ω) : List Turn → List Event
  | [] => []
  | t :: turns => ⟨t, (desk.step t).1⟩ :: (desk.step t).2.history turns

/-- The outcomes that the calls of logger number `i` had. -/
def outcomes (desk : Desk ω) (i : Nat) (turns : List Turn) : List (Except Error Outcome) :=
  (desk.history turns).filterMap (Event.outcome? i)

/-! ### Steps -/

section
variable {desk : Desk ω} {scene : Scene} {k : Nat} {c : Call}

theorem step_of_refused {e : Error}
    (h : (desk.loggers k).submit desk.store desk.world scene c.message c.options = .error e) :
    desk.step ⟨scene, .logger k, .call c⟩ = (.outcome (.error e), desk) := by
  simp only [step, call, h]

theorem step_of_logged {done : Logger.Logged ω}
    (h : (desk.loggers k).submit desk.store desk.world scene c.message c.options = .ok done) :
    desk.step ⟨scene, .logger k, .call c⟩ = (.outcome (.ok done.outcome),
      { desk with
        store := done.store, loggers := Function.update desk.loggers k done.logger, world := done.world }) := by
  simp only [step, call, h]

end

theorem outcomes_single (desk : Desk ω) (i : Nat) (t : Turn) :
    desk.outcomes i [t] = (Event.outcome? i ⟨t, (desk.step t).1⟩).toList := by
  rw [outcomes, history, history, List.filterMap_cons]
  cases Event.outcome? i ⟨t, (desk.step t).1⟩ <;> rfl

/-- A call counts for the logger that is called. -/
theorem outcomes_of_logger {desk : Desk ω} {scene : Scene} {k : Nat} {matter : Matter} {r : Except Error Outcome}
    (h : (desk.step ⟨scene, .logger k, matter⟩).1 = .outcome r) (i : Nat) :
    desk.outcomes i [⟨scene, .logger k, matter⟩] = if k = i then [r] else [] := by
  rw [outcomes_single, h]
  by_cases hi : k = i <;> simp [Event.outcome?, hi]

theorem outcomes_of_router (desk : Desk ω) (scene : Scene) (k : Nat) (c : Call) (i : Nat) :
    desk.outcomes i [⟨scene, .router k, .call c⟩] = [] := by
  rw [outcomes_single]
  rfl

theorem outcomes_of_request (desk : Desk ω) (scene : Scene) (a : Addressee) (r : Store.Request) (i : Nat) :
    desk.outcomes i [⟨scene, a, .request r⟩] = [] := by
  rw [outcomes_single]
  rfl

theorem outcomes_cons (desk : Desk ω) (i : Nat) (t : Turn) (turns : List Turn) :
    desk.outcomes i (t :: turns) = desk.outcomes i [t] ++ (desk.step t).2.outcomes i turns := by
  simp only [outcomes, history]
  rw [← List.filterMap_append]
  rfl

theorem length_history (desk : Desk ω) (turns : List Turn) : (desk.history turns).length = turns.length := by
  induction turns generalizing desk with
  | nil => rfl
  | cons t turns ih => rw [history, List.length_cons, List.length_cons, ih]

end Desk
end Logbook
