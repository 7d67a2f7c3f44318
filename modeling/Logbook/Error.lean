import Logbook.Json.Basic

/-! What can go wrong, by cause, and the text that says so. -/

namespace Logbook

/-- A cause of failure. -/
inductive Error where
  /-- No severity has this name. -/
  | invalidSeverity (value : String)
  /-- No color has this name. -/
  | invalidColor (value : String)
  /-- Both halves of a switch are asked for at once. -/
  | conflictingOptions (first second : String)
  /-- A category cannot have this name or these settings. -/
  | invalidCategory (name : String) (why : String)
  /-- A part of a configuration is not allowed. -/
  | invalidConfiguration (part : String) (why : String)
  /-- The operating system refused an operation; `cause` is its own text. -/
  | fileOperation (operation : String) (what : String) (cause : String)
  /-- The operating system refused something; `cause` is its own text. -/
  | file (cause : String)
  /-- A text is not the JSON that is wanted. -/
  | json (fault : Json.Fault)
  /-- A sink did not take a message. -/
  | sink (name : String) (why : String)
deriving DecidableEq, Repr

namespace Json

def Fault.message : Fault → String
  | .ended => "the text ends too early"
  | .malformed => "the text is malformed"
  | .unsuitable => "a value does not have the expected shape"
  | .refused why => why

end Json

namespace Error

/-- The text of an error, as it is shown to people. -/
def message : Error → String
  | .invalidSeverity value =>
    "Invalid severity '" ++ value ++ "': expected one of Off, Error, Warning, Information, Debug, Verbose"
  | .invalidColor value =>
    "Invalid color '" ++ value ++ "': expected a console color name such as Red, DarkYellow or White"
  | .conflictingOptions first second =>
    "Options '" ++ first ++ "' and '" ++ second ++ "' are mutually exclusive and cannot both be set"
  | .invalidCategory name why => "Invalid category '" ++ name ++ "': " ++ why
  | .invalidConfiguration part why => "Invalid configuration for " ++ part ++ ": " ++ why
  | .fileOperation operation what _ => "IO error while " ++ operation ++ ": " ++ what
  | .file cause => "IO error: " ++ cause
  | .json fault => "JSON error: " ++ fault.message
  | .sink name why => "Sink '" ++ name ++ "' failed: " ++ why

/-- The error is about what was asked for: it is raised before anything is changed. -/
def isValidation : Error → Bool
  | .invalidSeverity _ => true
  | .invalidColor _ => true
  | .conflictingOptions _ _ => true
  | .invalidCategory _ _ => true
  | .invalidConfiguration _ _ => true
  | .fileOperation _ _ _ => false
  | .file _ => false
  | .json _ => false
  | .sink _ _ => false

/-- The text of the error underneath, where there is one. -/
def source? : Error → Option String
  | .fileOperation _ _ cause => some cause
  | .file cause => some cause
  | .json fault => some fault.message
  | _ => none

end Error

theorem bind_eq_ok {ε α β : Type} {x : Except ε α} {f : α → Except ε β} {b : β} :
    (x >>= f) = .ok b ↔ ∃ a, x = .ok a ∧ f a = .ok b := by
  cases x <;> simp [bind, Except.bind]

theorem map_eq_ok {ε α β : Type} {x : Except ε α} {f : α → β} {b : β} :
    x.map f = .ok b ↔ ∃ a, x = .ok a ∧ f a = b := by
  cases x <;> simp [Except.map]

end Logbook
