import Logbook.Json.Printer
import Logbook.Json.Reader
import Logbook.Path

/-! Who writes a message: a script or a part of a program, or a person at the console. -/

namespace Logbook

/-- The one who writes a message: a name, a line, and whether it is a person at the console. -/
structure Caller where
  name : String
  line : String
  interactive : Bool
deriving DecidableEq, Repr

namespace Caller

/-! ### Kinds of callers -/

def ofProgram (name line : String) : Caller :=
  ⟨name, line, false⟩

def ofScript (file line : String) : Caller :=
  ofProgram ("Script " ++ file) line

/-- The place in a program where a message is written. -/
def ofLocation (place : String) (line : Nat) : Caller :=
  ofProgram place (toString line)

/-- The line of a caller that has none. -/
def noLine : String :=
  "----"

/-- A person at the console. -/
def console : Caller :=
  ⟨"[CONSOLE]", "[NONE]", true⟩

/-- A caller that nobody could name; it counts as a person at the console. -/
def unknown : Caller :=
  ⟨"[UNKNOWN CALLER]", noLine, true⟩

/-! ### JSON -/

def toJson (c : Caller) : Json.Value :=
  .object [("name", .text c.name), ("line_number", .text c.line), ("is_interactive", .truth c.interactive)]

/-- The fields of a caller in JSON, in order. -/
def jsonFields : List (Json.Field Caller) :=
  [⟨"name", fun c s => (Json.string s).map fun (v, s) => ({ c with name := v }, s)⟩,
   ⟨"line_number", fun c s => (Json.string s).map fun (v, s) => ({ c with line := v }, s)⟩,
   ⟨"is_interactive", fun c s => (Json.bool s).map fun (v, s) => ({ c with interactive := v }, s)⟩]

/-- The caller that a JSON text describes; no field may be absent. -/
def ofJson (text : String) : Except Json.Fault Caller :=
  Json.document (Json.record true jsonFields unknown) text

end Caller

/-- How callers are found out: the one who is writing now, and the directory its files lie in. -/
structure Resolver where
  caller : Caller
  base : Path
deriving DecidableEq, Repr

namespace Resolver

/-- The person at the console, in the working directory. -/
def console (working : Path) : Resolver :=
  ⟨.console, working⟩

/-- The running program, in the working directory. -/
def ofProcess (program : String) (working : Path) : Resolver :=
  ⟨.ofScript program Caller.noLine, working⟩

end Resolver
end Logbook
