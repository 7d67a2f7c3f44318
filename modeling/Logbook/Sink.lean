import Logbook.Console
import Logbook.FileSystem

/-! Sinks: what carries out decisions. A sink acts on the world around it and says how it went; it may refuse a
    decision, and it may break down. -/

namespace Logbook

/-- How a sink took a decision. -/
inductive Reaction where
  | taken
  | refused (e : Error)
  | crashed
deriving DecidableEq, Repr

/-- The sink did not do what it was asked to. -/
def Reaction.isFailure : Reaction → Bool
  | .taken => false
  | .refused _ => true
  | .crashed => true

/-- A sink that acts on a world of type `ω`. -/
structure Sink (ω : Type) where
  name : String
  write : Decision → ω → Reaction × ω
  flush : ω → Except Error Unit × ω

namespace Sink

/-- The world after each sink in turn was given a decision, and how many did not take it. -/
def deliver {ω : Type} (d : Decision) : List (Sink ω) → ω → Nat × ω
  | [], w => (0, w)
  | sink :: sinks, w =>
    let (reaction, w) := sink.write d w
    let (failures, w) := deliver d sinks w
    (failures + (if reaction.isFailure then 1 else 0), w)

/-- The world after the sinks were flushed in turn, up to the first that fails, and the error of that one. -/
def flushAll {ω : Type} : List (Sink ω) → ω → Except Error Unit × ω
  | [], w => (.ok (), w)
  | sink :: sinks, w =>
    match sink.flush w with
    | (.error e, w) => (.error e, w)
    | (.ok _, w) => flushAll sinks w

end Sink

/-! ### The world of the sinks -/

/-- How often a probe was written to and flushed. -/
structure Probe where
  writes : Nat
  flushes : Nat
deriving DecidableEq, Repr

/-- Files, a console, the decisions that memories hold, and the counts of probes. -/
structure World where
  files : FileSystem
  screen : Console.Screen
  memories : List (List Decision)
  probes : List Probe

namespace Sink

/-- A sink that remembers decisions, in memory number `slot`. -/
def memory (slot : Nat) : Sink World where
  name := "memory"
  write d w := (.taken, { w with memories := w.memories.modify slot (· ++ [d]) })
  flush w := (.ok (), w)

/-- A sink that shows lines on the console; it may be told not to color them. -/
def console (colors : Bool) : Sink World where
  name := "console"
  write d w :=
    match Console.line? (colors && w.screen.colors) d with
    | some (stream, line) => (.taken, { w with screen := w.screen.print stream line })
    | none => (.taken, w)
  flush w := (.ok (), w)

/-- A sink that counts what it is asked for, in probe number `slot`, and takes it as it is told. -/
def probe (slot : Nat) (reaction : Reaction) (flushed : Except Error Unit) : Sink World where
  name := "spy"
  write _ w := (reaction, { w with probes := w.probes.modify slot fun p => { p with writes := p.writes + 1 } })
  flush w := (flushed, { w with probes := w.probes.modify slot fun p => { p with flushes := p.flushes + 1 } })

/-! ### The file sink -/

/-- The directory that a file lies in, unless that is the working directory. -/
def directoryOf (p : Path) : Option Path :=
  p.parent?.filter fun q => !q.isEmpty

/-- The files after the directory of path `p` was made, and the error if it could not be. -/
def makeDirectoryOf (p : Path) (fs : FileSystem) : FileSystem × Option Error :=
  match directoryOf p with
  | none => (fs, none)
  | some parent =>
    match fs.makeDirectory parent with
    | (fs, none) => (fs, none)
    | (fs, some refusal) =>
      (fs, some (.fileOperation "create log directory"
        ("Failed to create directory '" ++ parent.text ++ "'") refusal.message))

/-- The files after a line was written as the grant says, and the error if it could not be. -/
def writeLine (grant : FileGrant) (line : String) (fs : FileSystem) : FileSystem × Option Error :=
  match fs.openFile grant.path (grant.mode == .overwrite) with
  | .error refusal =>
    (fs, some (.fileOperation "opening log file" ("Failed to open '" ++ grant.path.text ++ "'") refusal.message))
  | .ok (place, fs) =>
    match fs.append place (line ++ "\n").toUTF8 with
    | .error refusal =>
      (fs, some (.fileOperation "writing log file" ("Failed to write '" ++ grant.path.text ++ "'")
        refusal.message))
    | .ok fs => (fs, none)

/-- The files after a decision was written to its file, and the error if it could not be. -/
def writeDecision (makeDirectories : Bool) (d : Decision) (fs : FileSystem) : FileSystem × Option Error :=
  match d.file with
  | none => (fs, none)
  | some grant =>
    match if makeDirectories then makeDirectoryOf grant.path fs else (fs, none) with
    | (fs, some e) => (fs, some e)
    | (fs, none) => writeLine grant d.text fs

/-- A sink that writes lines to their files; it may be told not to make directories. -/
def file (makeDirectories : Bool) : Sink World where
  name := "file"
  write d w :=
    match writeDecision makeDirectories d w.files with
    | (files, none) => (.taken, { w with files := files })
    | (files, some e) => (.refused e, { w with files := files })
  flush w := (.ok (), w)

end Sink
end Logbook
