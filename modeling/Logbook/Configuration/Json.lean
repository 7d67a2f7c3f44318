import Logbook.Configuration.Basic

/-! Configurations as JSON. What a text leaves out has its initial value, and what it adds is skipped. -/

namespace Logbook

namespace FileSettings

def toJson (f : FileSettings) : Json.Value :=
  .object [("Name", .text f.name), ("IncludeDateInName", .truth f.includeDate), ("Overwrite", .truth f.overwrite),
    ("WriteFromScriptDefault", .truth f.fromScript), ("WriteFromHostDefault", .truth f.fromHost)]

def read : Json.Reader FileSettings :=
  Json.record false
    [⟨"Name", fun f s => (Json.string s).map fun (v, s) => ({ f with name := v }, s)⟩,
     ⟨"IncludeDateInName", fun f s => (Json.bool s).map fun (v, s) => ({ f with includeDate := v }, s)⟩,
     ⟨"Overwrite", fun f s => (Json.bool s).map fun (v, s) => ({ f with overwrite := v }, s)⟩,
     ⟨"WriteFromScriptDefault", fun f s => (Json.bool s).map fun (v, s) => ({ f with fromScript := v }, s)⟩,
     ⟨"WriteFromHostDefault", fun f s => (Json.bool s).map fun (v, s) => ({ f with fromHost := v }, s)⟩]
    default

end FileSettings

namespace Severity

def read : Json.Reader Severity :=
  Json.named fun name => (ofName name).mapError Error.message

end Severity

namespace Configuration

def toJson (c : Configuration) : Json.Value :=
  .object [("LogLevel", .text c.threshold.name), ("MessageFormat", .text c.template),
    ("WriteToHost", .truth c.writeToHost), ("HostTextColor", c.hostColors.toJson),
    ("CategoryInfo", c.categories.toJson), ("LogFile", c.file.toJson)]

def toJsonText (c : Configuration) : String :=
  c.toJson.prettyText

/-- The configuration that a JSON value describes; it need not be valid. -/
def read : Json.Reader Configuration :=
  Json.record false
    [⟨"LogLevel", fun c s => (Severity.read s).map fun (v, s) => ({ c with threshold := v }, s)⟩,
     ⟨"MessageFormat", fun c s => (Json.string s).map fun (v, s) => ({ c with template := v }, s)⟩,
     ⟨"WriteToHost", fun c s => (Json.bool s).map fun (v, s) => ({ c with writeToHost := v }, s)⟩,
     ⟨"HostTextColor", fun c s => (HostColors.read s).map fun (v, s) => ({ c with hostColors := v }, s)⟩,
     ⟨"CategoryInfo", fun c s => (CategoryTable.read s).map fun (v, s) => ({ c with categories := v }, s)⟩,
     ⟨"LogFile", fun c s => (FileSettings.read s).map fun (v, s) => ({ c with file := v }, s)⟩]
    default

/-- The configuration that a JSON text describes; it need not be valid. -/
def ofJson (text : String) : Except Json.Fault Configuration :=
  Json.document read text

/-- The configuration that a JSON text describes, if it is valid. -/
def ofJson? (text : String) : Except Error Configuration := do
  let c ← (ofJson text).mapError Error.json
  c.validate
  return c

end Configuration
end Logbook
