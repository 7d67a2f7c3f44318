import Logbook.Metrics
import Logbook.Routing
import Logbook.Sink

/-! Loggers: messages go through the routing and then to every sink in turn. A sink that fails keeps no decision
    from the others and no error reaches the one who logs; failures are only counted. -/

namespace Logbook

/-- A logger on a world of type `ω`: its sinks, its cache of templates and its counters. -/
structure Logger (ω : Type) where
  sinks : List (Sink ω)
  templates : TemplateCache
  metrics : Metrics

namespace Metrics

def recordDecision (m : Metrics) (d : Decision) (failures : Nat) : Metrics :=
  let m := m.recordRouted
  let m := if d.file.isSome then m.recordFileWrite else m
  failures.repeat recordSinkFailure m

end Metrics

namespace Logger

def ofSinks {ω : Type} (sinks : List (Sink ω)) : Logger ω :=
  ⟨sinks, default, default⟩

/-- What logging a message leads to: its outcome, then the logger, the store and the world, and how often the scene
    was asked for the caller. -/
structure Logged (ω : Type) where
  outcome : Outcome
  logger : Logger ω
  store : Store
  world : ω
  asked : Nat

variable {ω : Type}

/-- A message is submitted; only what is asked for can be wrong, and then nothing has happened. -/
def submit (l : Logger ω) (s : Store) (w : ω) (scene : Scene) (message : String) (o : Options) :
    Except Error (Logged ω) := do
  let done ← Routing.submit s l.templates scene message o
  match done.outcome with
  | .suppressed =>
    return ⟨.suppressed, { l with templates := done.templates, metrics := l.metrics.recordSuppressed },
      done.store, w, done.asked⟩
  | .routed d =>
    let (failures, w) := Sink.deliver d l.sinks w
    return ⟨.routed d, { l with templates := done.templates, metrics := l.metrics.recordDecision d failures },
      done.store, w, done.asked⟩

/-- A message of this severity would not be suppressed. -/
def isEnabled (s : Store) (severity : Severity) : Bool :=
  severity.passes s.config.threshold

/-- Every sink is flushed in turn, up to the first that fails. -/
def flush (l : Logger ω) (w : ω) : Except Error Unit × ω :=
  Sink.flushAll l.sinks w

end Logger

namespace Options

def ofSeverity (severity : Severity) : Options :=
  { Options.none with severity := some severity }

def ofCaller (severity : Severity) (caller : Caller) : Options :=
  { Options.none with severity := some severity, caller := some caller }

def ofCategory (severity : Severity) (category : String) : Options :=
  { Options.none with severity := some severity, category := some category }

end Options
end Logbook
