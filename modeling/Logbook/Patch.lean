import Logbook.Configuration.Basic

/-! Patches: changes of single settings that are applied to a configuration all at once or not at all. A patch is
    built change by change; a later change of the same setting replaces an earlier one, except that colors and
    categories add up. A setting that is on or off has a switch for either, and asking for both is an error. -/

namespace Logbook

/-- Which of the two sides of a setting were asked for. -/
structure Switch where
  on : Bool
  off : Bool
deriving DecidableEq, Repr

namespace Switch

instance : Inhabited Switch := ⟨⟨false, false⟩⟩

/-- The switch with one more side asked for. -/
def press (s : Switch) (side : Bool) : Switch :=
  if side then { s with on := true } else { s with off := true }

def isConflict (s : Switch) : Bool :=
  s.on && s.off

/-- The setting after the switch, which was `before`. -/
def apply (s : Switch) (before : Bool) : Bool :=
  if s.on then true else if s.off then false else before

end Switch

/-- A change of one setting. -/
inductive Change where
  | threshold (s : Severity)
  | template (text : String)
  | fileName (name : String)
  | includeDate (side : Bool)
  | overwrite (side : Bool)
  | writeToHost (side : Bool)
  | fromScript (side : Bool)
  | fromHost (side : Bool)
  /-- All host colors are replaced. -/
  | hostColors (t : HostColors)
  /-- One host color is set, after they have been replaced. -/
  | textColor (s : Severity) (color : Color)
  /-- All categories are replaced. -/
  | categories (t : CategoryTable)
  /-- One category is set, after they have been replaced. -/
  | setCategory (name : String) (category : Category)
  /-- One category is removed, after others have been set. -/
  | removeCategory (name : String)
deriving DecidableEq

/-- What is asked of each setting. -/
structure Patch where
  threshold : Option Severity
  template : Option String
  fileName : Option String
  includeDate : Switch
  overwrite : Switch
  writeToHost : Switch
  fromScript : Switch
  fromHost : Switch
  hostColors : Option HostColors
  textColors : List (Severity × Color)
  categories : Option CategoryTable
  setCategories : List (String × Category)
  removeCategories : List String
deriving DecidableEq

namespace Patch

/-! ### Building a patch -/

def empty : Patch :=
  ⟨none, none, none, default, default, default, default, default, none, [], none, [], []⟩

instance : EmptyCollection Patch := ⟨empty⟩

instance : Inhabited Patch := ⟨empty⟩

def isEmpty (p : Patch) : Bool :=
  p = empty

def add (p : Patch) : Change → Patch
  | .threshold s => { p with threshold := some s }
  | .template text => { p with template := some text }
  | .fileName name => { p with fileName := some name }
  | .includeDate side => { p with includeDate := p.includeDate.press side }
  | .overwrite side => { p with overwrite := p.overwrite.press side }
  | .writeToHost side => { p with writeToHost := p.writeToHost.press side }
  | .fromScript side => { p with fromScript := p.fromScript.press side }
  | .fromHost side => { p with fromHost := p.fromHost.press side }
  | .hostColors t => { p with hostColors := some t }
  | .textColor s color => { p with textColors := p.textColors ++ [(s, color)] }
  | .categories t => { p with categories := some t }
  | .setCategory name category => { p with setCategories := p.setCategories ++ [(name, category)] }
  | .removeCategory name => { p with removeCategories := p.removeCategories ++ [name] }

/-- The patch of these changes, in order. -/
def ofList (changes : List Change) : Patch :=
  changes.foldl add empty

/-! ### Valid patches -/

/-- The switches with the names of their sides, in the order in which they are looked at. -/
def switches (p : Patch) : List (Switch × String × String) :=
  [(p.includeDate, "IncludeDateInFileName", "ExcludeDateFromFileName"),
   (p.overwrite, "OverwriteLogFile", "AppendToLogFile"),
   (p.writeToHost, "WriteToHost", "WriteToStreams"),
   (p.fromScript, "EnableFileLoggingFromScript", "DisableFileLoggingFromScript"),
   (p.fromHost, "EnableFileLoggingFromHost", "DisableFileLoggingFromHost")]

def validateSwitches (p : Patch) : Except Error Unit :=
  match p.switches.find? fun s => s.1.isConflict with
  | some (_, on, off) => .error (.conflictingOptions on off)
  | none => .ok ()

/-- No color is set for `off`. -/
def validateColors (p : Patch) : Except Error Unit :=
  if (p.hostColors.map fun t => t.off.isSome).getD false || p.textColors.any fun c => c.1 == .off then
    .error HostColors.offColor
  else .ok ()

def validateTable (p : Patch) : Except Error Unit :=
  match p.categories with
  | some t => t.validate
  | none => .ok ()

def validateNames (p : Patch) : Except Error Unit :=
  match p.setCategories.find? fun c => Text.isBlankText c.1 with
  | some (name, _) => .error (CategoryTable.blankName name)
  | none => .ok ()

/-- The patch can be applied. The switches are looked at first, then colors, the table and the names. -/
def validate (p : Patch) : Except Error Unit := do
  p.validateSwitches
  p.validateColors
  p.validateTable
  p.validateNames

/-! ### Applying a patch -/

/-- The categories after the patch, from those before it. -/
def applyCategories (p : Patch) (before : CategoryTable) : Except Error CategoryTable := do
  let t ← p.setCategories.foldlM (fun t c => t.set c.1 c.2) (p.categories.getD before)
  return p.removeCategories.foldl CategoryTable.remove t

/-- The host colors after the patch, from those before it. -/
def applyColors (p : Patch) (before : HostColors) : HostColors :=
  p.textColors.foldl (fun t c => t.insert c.1 c.2) (p.hostColors.getD before)

/-- The settings of the log file after the patch, from those before it. -/
def applyFile (p : Patch) (before : FileSettings) : FileSettings :=
  ⟨p.fileName.getD before.name, p.includeDate.apply before.includeDate, p.overwrite.apply before.overwrite,
   p.fromScript.apply before.fromScript, p.fromHost.apply before.fromHost⟩

def apply (p : Patch) (c : Configuration) : Except Error Configuration := do
  p.validate
  let categories ← p.applyCategories c.categories
  return ⟨p.threshold.getD c.threshold, p.template.getD c.template, p.writeToHost.apply c.writeToHost,
    p.applyColors c.hostColors, categories, p.applyFile c.file⟩

end Patch
end Logbook
