import Logbook.Logger

/-! Sessions: loggers and a router that share a store, and what is done with them, one action after the other. A
    session has a resolver and clocks of its own; what does not get these looks at the running program and at the
    time of the system. -/

namespace Logbook

/-- A clock that shows one time until it is set; a fixed clock cannot be set. -/
structure Clock where
  now : Instant
  fixed : Bool
deriving DecidableEq, Repr

def Clock.set (c : Clock) (t : Instant) : Clock :=
  if c.fixed then c else { c with now := t }

/-- Where a part of a session looks for the caller, the directory and the time: at what the session was given, or
    at the running program. -/
inductive Source where
  | given
  | program
deriving DecidableEq, Repr

/-- A session: the store and the loggers that write through it, the cache of the router, the world, and where
    callers and times come from. The store and the loggers look at the `source`, the router at what was given.
    `asked` counts how often the given resolver was asked for the caller. -/
structure Session where
  store : Store
  source : Source
  loggers : List (Logger World)
  templates : TemplateCache
  world : World
  resolver : Resolver
  clock : Clock
  loggerClock : Clock
  program : Resolver
  systemTime : Instant
  asked : Nat

/-- What is done in a session. Loggers are numbered. -/
inductive Action where
  | patch (p : Patch)
  | replace (c : Configuration)
  | reset
  | claim
  | load (path : Path)
  | save (path : Path)
  | submit (logger : Nat) (message : String) (o : Options)
  /-- A message is submitted to the router, past all sinks. -/
  | route (message : String) (o : Options)
  /-- A message is logged by the one who does not look at the outcome. -/
  | log (logger : Nat) (message : String) (o : Options)
  /-- A message is logged at a place in a program, which asks first whether it would be suppressed. -/
  | logHere (logger : Nat) (message : String) (severity : Severity) (place : String) (line : Nat)
  | flush (logger : Nat)
  | resetMetrics (logger : Nat)
  | forget (memory : Nat)
  | clearScreen
  | setClock (t : Instant)
  | setResolver (r : Resolver)
  /-- A file sink of its own is given one decision. -/
  | writeDecision (makeDirectories : Bool) (d : Decision)
  | writeFile (path : Path) (bytes : ByteArray)
  | makeDirectory (path : Path)
  | removeFile (path : Path)
  /-- All loggers are dropped, each flushing its sinks once more. -/
  | dropAll

/-- What an action answers. -/
inductive Reply where
  | done (r : Except Error Unit)
  | grant (g : Option FileGrant)
  | outcome (r : Except Error Outcome)

namespace Session

/-! ### Circumstances -/

/-- Where and when the store finds the path of the log file. -/
def occasion (s : Session) : Occasion :=
  match s.source with
  | .given => ⟨s.resolver.base, s.clock.now⟩
  | .program => ⟨s.program.base, s.systemTime⟩

/-- The circumstances of a message that is written through the store of the session. -/
def scene (s : Session) : Source → Scene
  | .given => ⟨s.resolver.caller, s.loggerClock.now, s.occasion⟩
  | .program => ⟨s.program.caller, s.systemTime, s.occasion⟩

/-- The number of questions to the given resolver among those that one message asks. -/
def questions (source : Source) (asked : Nat) : Nat :=
  if source == .given then asked else 0

/-! ### Messages -/

/-- A message is submitted to logger number `i`; where there is none, nothing happens. -/
def submit (s : Session) (i : Nat) (message : String) (o : Options) : Except Error Outcome × Session :=
  match s.loggers[i]? with
  | none => (.ok .suppressed, s)
  | some logger =>
    match logger.submit s.store s.world (s.scene s.source) message o with
    | .error e => (.error e, s)
    | .ok done =>
      (.ok done.outcome, { s with store := done.store, loggers := s.loggers.set i done.logger, world := done.world,
                                  asked := s.asked + questions s.source done.asked })

def route (s : Session) (message : String) (o : Options) : Except Error Outcome × Session :=
  match Routing.submit s.store s.templates (s.scene .given) message o with
  | .error e => (.error e, s)
  | .ok done =>
    (.ok done.outcome, { s with store := done.store, templates := done.templates,
                                asked := s.asked + questions .given done.asked })

/-- Logger number `i` would not suppress a message of this severity. -/
def isEnabled (s : Session) (i : Nat) (severity : Severity) : Bool :=
  i < s.loggers.length && Logger.isEnabled s.store severity

/-! ### The store and the world -/

/-- The store of the session is changed in place, also as far as a change gets that fails. -/
def change (s : Session) (u : Store.Update) : Except Error Unit × Session :=
  let (r, store) := u.run s.store
  (r, { s with store := store })

def withFiles (s : Session) (files : FileSystem) : Session :=
  { s with world := { s.world with files := files } }

def succeeded : Option Error → Except Error Unit
  | some e => .error e
  | none => .ok ()

def load (s : Session) (path : Path) : Except Error Unit × Session :=
  match s.world.files.readText path with
  | .error refusal =>
    (.error (.fileOperation "reading configuration" ("Failed to read '" ++ path.text ++ "'") refusal.message), s)
  | .ok json => s.change (.load json s.occasion)

def save (s : Session) (path : Path) : Except Error Unit × Session :=
  match s.world.files.write path s.store.config.toJsonText.toUTF8 with
  | .error refusal =>
    (.error (.fileOperation "writing configuration" ("Failed to write '" ++ path.text ++ "'") refusal.message), s)
  | .ok files => (.ok (), s.withFiles files)

/-- The files are changed, if the file system allows it. -/
def changeFiles (s : Session) (r : Except Refusal FileSystem) : Except Error Unit × Session :=
  match r with
  | .error refusal => (.error (.file refusal.message), s)
  | .ok files => (.ok (), s.withFiles files)

/-- Logger number `i` flushes its sinks. -/
def flush (s : Session) (i : Nat) : Except Error Unit × Session :=
  match s.loggers[i]? with
  | none => (.ok (), s)
  | some logger =>
    let (r, world) := logger.flush s.world
    (r, { s with world := world })

/-- The world after all loggers flushed their sinks, whatever that answered. -/
def flushEvery (loggers : List (Logger World)) (w : World) : World :=
  loggers.foldl (fun w logger => (logger.flush w).2) w

/-! ### Actions -/

/-- The answer to an action, and the session after it. -/
def step (s : Session) : Action → Reply × Session
  | .patch p => let (r, s) := s.change (.patch p s.occasion); (.done r, s)
  | .replace c => let (r, s) := s.change (.replace c s.occasion); (.done r, s)
  | .reset => (.done (.ok ()), { s with store := s.store.reset s.occasion })
  | .claim => let (g, store) := s.store.claim s.occasion; (.grant g, { s with store := store })
  | .load path => let (r, s) := s.load path; (.done r, s)
  | .save path => let (r, s) := s.save path; (.done r, s)
  | .submit i message o => let (r, s) := s.submit i message o; (.outcome r, s)
  | .route message o => let (r, s) := s.route message o; (.outcome r, s)
  | .log i message o => (.done (.ok ()), (s.submit i message o).2)
  | .logHere i message severity place line =>
    if s.isEnabled i severity then
      (.done (.ok ()), (s.submit i message (.ofCaller severity (.ofLocation place line))).2)
    else (.done (.ok ()), s)
  | .flush i => let (r, s) := s.flush i; (.done r, s)
  | .resetMetrics i =>
    (.done (.ok ()), { s with loggers := s.loggers.modify i fun logger => { logger with metrics := .zero } })
  | .forget i =>
    (.done (.ok ()), { s with world := { s.world with memories := s.world.memories.modify i fun _ => [] } })
  | .clearScreen => (.done (.ok ()), { s with world := { s.world with screen := s.world.screen.clear } })
  | .setClock t => (.done (.ok ()), { s with clock := s.clock.set t, loggerClock := s.loggerClock.set t })
  | .setResolver r => (.done (.ok ()), { s with resolver := r })
  | .writeDecision makeDirectories d =>
    let (files, e) := Sink.writeDecision makeDirectories d s.world.files
    (.done (succeeded e), s.withFiles files)
  | .writeFile path bytes => let (r, s) := s.changeFiles (s.world.files.write path bytes); (.done r, s)
  | .makeDirectory path =>
    let (files, refusal) := s.world.files.makeDirectory path
    (.done (succeeded (refusal.map fun refusal => .file refusal.message)), s.withFiles files)
  | .removeFile path => let (r, s) := s.changeFiles (s.world.files.remove path); (.done r, s)
  | .dropAll => (.done (.ok ()), { s with world := flushEvery s.loggers s.world })

/-- The answers to actions in order, and the session after them. -/
def run (s : Session) : List Action → List Reply × Session
  | [] => ([], s)
  | action :: actions =>
    let (reply, s) := s.step action
    let (replies, s) := s.run actions
    (reply :: replies, s)

end Session
end Logbook
