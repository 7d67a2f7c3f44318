import Logbook.Store
import Logbook.Template.Cache

/-! Routing: what becomes of a message. A message below the threshold is suppressed before anything is looked up.
    For any other message what is asked for with it comes before what is configured, and the caller is found out
    only if the line or the file depends on it. -/

namespace Logbook

/-- What may be asked for with a message. -/
structure Options where
  severity : Option Severity
  category : Option String
  color : Option Color
  template : Option String
  destination : Option Destination
  writeToFile : Option Bool
  caller : Option Caller
deriving DecidableEq, Repr

namespace Options

def none : Options :=
  ⟨.none, .none, .none, .none, .none, .none, .none⟩

instance : Inhabited Options := ⟨none⟩

/-- The severity with this name is asked for. -/
def withSeverity (o : Options) (name : String) : Except Error Options :=
  (Severity.ofName name).map fun s => { o with severity := s }

/-- The color with this name is asked for. -/
def withColor (o : Options) (name : String) : Except Error Options :=
  (Color.ofName name).map fun c => { o with color := c }

/-- The severity of the message, which cannot be `off`. -/
def level (o : Options) : Except Error Severity :=
  (o.severity.getD default).messageLevel

end Options

/-- What became of a message. -/
inductive Outcome where
  | routed (d : Decision)
  | suppressed
deriving DecidableEq, Repr

/-- The decision about a message, unless it was suppressed. -/
def Outcome.decision? : Outcome → Option Decision
  | .routed d => some d
  | .suppressed => none

/-- Whether a message is written to the log file, as far as this can be told without the caller. -/
inductive FilePolicy where
  | never
  | always
  | byCaller (fromScript fromHost : Bool)
deriving DecidableEq, Repr

namespace FilePolicy

/-- The policy for what is asked for with a message, under these settings. -/
def choose (asked : Option Bool) (f : FileSettings) : FilePolicy :=
  match asked with
  | some true => .always
  | some false => .never
  | none =>
    if !f.isEnabled then .never
    else if f.fromScript = f.fromHost then (if f.fromScript then .always else .never)
    else .byCaller f.fromScript f.fromHost

/-- The caller decides. -/
def needsCaller : FilePolicy → Bool
  | .byCaller _ _ => true
  | _ => false

/-- The message is written for this caller; one that is not known counts as a person at the console. -/
def allows (caller : Option Caller) : FilePolicy → Bool
  | .never => false
  | .always => true
  | .byCaller fromScript fromHost =>
    if (caller.map (·.interactive)).getD true then fromHost else fromScript

end FilePolicy

/-- What is decided about a message from the configuration alone. -/
structure Plan where
  template : Template
  category : String
  destination : Destination
  color : Option Color
  file : FilePolicy
deriving DecidableEq

namespace Plan

/-- The category that a message belongs to: the one that is asked for, unless that is blank, or else the default,
    or none. -/
def categoryOf (asked : Option String) (t : CategoryTable) : String :=
  ((asked.map Text.trimmed).filter (· != "")).getD (t.default?.getD "")

/-- The color of a line on the host: the one that is asked for, or that of the category, or that of the
    severity. -/
def hostColor (asked : Option Color) (category : String) (severity : Severity) (c : Configuration) :
    Option Color :=
  (asked.or (if category = "" then none else c.categories.color? category)).or (c.hostColors.get? severity)

/-- The destination of a line: the one that is asked for, or the configured one. -/
def destinationOf (asked : Option Destination) (c : Configuration) : Destination :=
  asked.getD (if c.writeToHost then .host else .streams)

/-- The plan for a message of this severity, whose line is made by `template`. -/
def make (c : Configuration) (template : Template) (severity : Severity) (o : Options) : Plan :=
  let category := categoryOf o.category c.categories
  let destination := destinationOf o.destination c
  let color := match destination with
    | .streams => none
    | .host => hostColor o.color category severity c
  ⟨template, category, destination, color, .choose o.writeToFile c.file⟩

/-- The caller has to be found out. -/
def needsCaller (p : Plan) : Bool :=
  p.template.needsCaller || p.file.needsCaller

end Plan

/-- The circumstances of a message: who writes it if it does not say so, when, and where files lie. -/
structure Scene where
  caller : Caller
  now : Instant
  occasion : Occasion
deriving DecidableEq, Repr

/-- What submitting a message leads to: its outcome, the store and the cache after it, and how often the scene was
    asked for the caller. -/
structure Submission where
  outcome : Outcome
  store : Store
  templates : TemplateCache
  asked : Nat

namespace Routing

/-- The template of a message: the one that is asked for, which the cache keeps, or the configured one. -/
def templateOf (s : Store) (cache : TemplateCache) (o : Options) : Template × TemplateCache :=
  match o.template with
  | some source => cache.get source
  | none => (s.template, cache)

/-- The caller of a message, if the plan needs one, and how often the scene had to be asked for it. -/
def callerOf (plan : Plan) (o : Options) (scene : Scene) : Option Caller × Nat :=
  if plan.needsCaller then
    match o.caller with
    | some caller => (some caller, 0)
    | none => (some scene.caller, 1)
  else (none, 0)

/-- A grant for the log file where the message is written to it, and the store after that. -/
def fileOf (s : Store) (plan : Plan) (caller : Option Caller) (scene : Scene) : Option FileGrant × Store :=
  if plan.file.allows caller then s.claim scene.occasion else (none, s)

def route (s : Store) (cache : TemplateCache) (scene : Scene) (severity : Severity) (message : String)
    (o : Options) : Submission :=
  let (template, cache) := templateOf s cache o
  let plan := Plan.make s.config template severity o
  let (caller, asked) := callerOf plan o scene
  let text := plan.template.render ⟨message, severity, plan.category, caller, scene.now⟩
  let (file, store) := fileOf s plan caller scene
  ⟨.routed ⟨text, plan.destination, plan.color, severity, file⟩, store, cache, asked⟩

/-- A message is submitted: its severity is checked, then the threshold, and then it is routed. -/
def submit (s : Store) (cache : TemplateCache) (scene : Scene) (message : String) (o : Options) :
    Except Error Submission := do
  let severity ← o.level
  if severity.passes s.config.threshold then return route s cache scene severity message o
  else return ⟨.suppressed, s, cache, 0⟩

end Routing
end Logbook
