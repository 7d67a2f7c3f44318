import Logbook.Error
import Logbook.Text.Blank
import Logbook.Text.Letter

/-! How much a message matters. The severities are ordered by how much is shown, and the same scale serves as a
    threshold: `off` shows nothing, and no message is `off`. -/

namespace Logbook

/-- The severities, from the threshold that shows nothing to the one that shows everything. -/
inductive Severity where
  | off
  | error
  | warning
  | information
  | debug
  | verbose
deriving DecidableEq, Repr

namespace Severity

/-- The severity of a message that names none, and the threshold that is set at first. -/
instance : Inhabited Severity := ⟨.information⟩

/-- All severities, in order. -/
def all : List Severity :=
  [.off, .error, .warning, .information, .debug, .verbose]

/-- The severities that a message can have, in order. -/
def messageLevels : List Severity :=
  [.error, .warning, .information, .debug, .verbose]

def rank : Severity → Nat
  | .off => 0
  | .error => 1
  | .warning => 2
  | .information => 3
  | .debug => 4
  | .verbose => 5

instance : LE Severity := ⟨fun s t => s.rank ≤ t.rank⟩

instance : LT Severity := ⟨fun s t => s.rank < t.rank⟩

instance : DecidableRel fun s t : Severity => s ≤ t :=
  fun s t => inferInstanceAs (Decidable (s.rank ≤ t.rank))

instance : DecidableRel fun s t : Severity => s < t :=
  fun s t => inferInstanceAs (Decidable (s.rank < t.rank))

instance : Ord Severity := ⟨fun s t => compare s.rank t.rank⟩

/-! ### Names -/

def name : Severity → String
  | .off => "Off"
  | .error => "Error"
  | .warning => "Warning"
  | .information => "Information"
  | .debug => "Debug"
  | .verbose => "Verbose"

def label : Severity → String
  | .off => "OFF"
  | .error => "ERROR"
  | .warning => "WARNING"
  | .information => "INFORMATION"
  | .debug => "DEBUG"
  | .verbose => "VERBOSE"

/-- The severity with this name, whose upper-case form has to be a label or one of two short forms. Blanks
    around it do not count. -/
def ofName? (name : String) : Option Severity :=
  let form := String.ofList (Text.capitals (Text.trim name.toList))
  if form = "OFF" then some .off
  else if form = "ERROR" then some .error
  else if form = "WARNING" || form = "WARN" then some .warning
  else if form = "INFORMATION" || form = "INFO" then some .information
  else if form = "DEBUG" then some .debug
  else if form = "VERBOSE" then some .verbose
  else none

/-- The severity with this name, or the error that there is none. -/
def ofName (name : String) : Except Error Severity :=
  match ofName? name with
  | some s => .ok s
  | none => .error (.invalidSeverity name)

/-! ### Messages and thresholds -/

/-- A message of severity `s` is shown under `threshold`. -/
def passes (s threshold : Severity) : Bool :=
  s != .off && s.rank ≤ threshold.rank

/-- The severity as that of a message, which cannot be `off`. -/
def messageLevel (s : Severity) : Except Error Severity :=
  if s = .off then
    .error (.invalidSeverity "Off is a threshold value and cannot be used as a message severity")
  else .ok s

/-! ### Lemmas -/

theorem le_iff_rank_le {s t : Severity} : s ≤ t ↔ s.rank ≤ t.rank := Iff.rfl

theorem mem_all (s : Severity) : s ∈ all := by
  cases s <;> decide

theorem passes_iff {s threshold : Severity} : s.passes threshold = true ↔ s ≠ .off ∧ s ≤ threshold := by
  simp [passes, le_iff_rank_le]

end Severity
end Logbook
