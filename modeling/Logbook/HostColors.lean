import Logbook.Category
import Logbook.Severity

/-! The color in which the console shows the messages of each severity. A table may give `off` a color, but is not
    valid then. -/

namespace Logbook

/-- A color, or none, for each severity. -/
structure HostColors where
  off : Option Color
  error : Option Color
  warning : Option Color
  information : Option Color
  debug : Option Color
  verbose : Option Color
deriving DecidableEq, Repr

namespace HostColors

def empty : HostColors :=
  ⟨none, none, none, none, none, none⟩

instance : EmptyCollection HostColors := ⟨empty⟩

def get? (t : HostColors) : Severity → Option Color
  | .off => t.off
  | .error => t.error
  | .warning => t.warning
  | .information => t.information
  | .debug => t.debug
  | .verbose => t.verbose

def insert (t : HostColors) (s : Severity) (color : Color) : HostColors :=
  match s with
  | .off => { t with off := some color }
  | .error => { t with error := some color }
  | .warning => { t with warning := some color }
  | .information => { t with information := some color }
  | .debug => { t with debug := some color }
  | .verbose => { t with verbose := some color }

/-- The colors that are set, in the order of the severities. -/
def toList (t : HostColors) : List (Severity × Color) :=
  Severity.all.filterMap fun s => (t.get? s).map fun color => (s, color)

def initial : HostColors :=
  ⟨none, some .red, some .yellow, some .cyan, some .white, some .white⟩

instance : Inhabited HostColors := ⟨initial⟩

/-! ### Valid tables -/

/-- The error of a color for `off`. -/
def offColor : Error :=
  .invalidConfiguration "HostTextColor" "Off is not a message severity and cannot have a color"

/-- Only severities that a message can have are given a color. -/
def validate (t : HostColors) : Except Error Unit :=
  if t.off.isSome then .error offColor else .ok ()

/-! ### JSON -/

def toJson (t : HostColors) : Json.Value :=
  .object (t.toList.map fun entry => (entry.1.name, .text entry.2.name))

def readKey (name : String) : Except Json.Fault Severity :=
  (Severity.ofName name).mapError fun e => .refused e.message

/-- The table that a JSON object describes; it need not be valid. -/
def read : Json.Reader HostColors :=
  Json.table readKey Color.read insert ∅

/-- The table that a JSON text describes; it need not be valid. -/
def ofJson (text : String) : Except Json.Fault HostColors :=
  Json.document read text

/-! ### Lemmas -/

theorem get?_insert (t : HostColors) (s r : Severity) (color : Color) :
    (t.insert s color).get? r = if r = s then some color else t.get? r := by
  cases s <;> cases r <;> rfl

theorem ext_get? {t u : HostColors} (h : ∀ s, t.get? s = u.get? s) : t = u := by
  obtain ⟨a, b, c, d, e, f⟩ := t
  obtain ⟨a', b', c', d', e', f'⟩ := u
  have h0 := h .off
  have h1 := h .error
  have h2 := h .warning
  have h3 := h .information
  have h4 := h .debug
  have h5 := h .verbose
  simp only [get?] at h0 h1 h2 h3 h4 h5
  simp [h0, h1, h2, h3, h4, h5]

end HostColors
end Logbook
