import Logbook.HostColors
import Logbook.Template.Compile

/-! Configurations: what is shown, how a line looks, where it goes, and which file it is written to. -/

namespace Logbook

/-- Where log lines are written: the name of the file, blank for none, and when it is written to. -/
structure FileSettings where
  name : String
  includeDate : Bool
  overwrite : Bool
  fromScript : Bool
  fromHost : Bool
deriving DecidableEq, Repr

namespace FileSettings

def defaultName : String :=
  "Logfile.log"

instance : Inhabited FileSettings := ⟨⟨defaultName, true, true, true, false⟩⟩

def isEnabled (f : FileSettings) : Bool :=
  !Text.isBlankText f.name

end FileSettings

/-- A configuration. -/
structure Configuration where
  threshold : Severity
  template : String
  writeToHost : Bool
  hostColors : HostColors
  categories : CategoryTable
  file : FileSettings
deriving DecidableEq

namespace CategoryTable

def initial : CategoryTable :=
  ofList [("Success", .colored .green), ("Failure", .colored .red), ("PartialFailure", .colored .yellow)]

end CategoryTable

namespace Configuration

def initial : Configuration :=
  ⟨.information, Template.defaultSource, true, .initial, .initial, default⟩

instance : Inhabited Configuration := ⟨initial⟩

/-- The tables of the configuration are valid; the colors are looked at first. -/
def validate (c : Configuration) : Except Error Unit :=
  c.hostColors.validate.bind fun _ => c.categories.validate

theorem validate_default : (default : Configuration).validate = .ok () := rfl

/-- The log file of both configurations has the same name, with or without a date. -/
def sameFile (c d : Configuration) : Bool :=
  c.file.name == d.file.name && c.file.includeDate == d.file.includeDate

end Configuration
end Logbook
