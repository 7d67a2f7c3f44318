import Logbook.Color
import Logbook.Path
import Logbook.Severity

/-! What is decided about a message before any sink sees it: its line, where it is shown and in which color, and
    the file it is written to. -/

namespace Logbook

/-- Where a line is shown: on the console of the host, or on the stream of its severity. -/
inductive Destination where
  | host
  | streams
deriving DecidableEq, Repr

/-- How a file is opened for a line: emptied first, or at its end. -/
inductive WriteMode where
  | overwrite
  | append
deriving DecidableEq, Repr

/-- A line may be written to a file. -/
structure FileGrant where
  path : Path
  mode : WriteMode
deriving DecidableEq, Repr

/-- Everything that a sink needs to know about a message. -/
structure Decision where
  text : String
  destination : Destination
  color : Option Color
  severity : Severity
  file : Option FileGrant
deriving DecidableEq, Repr

end Logbook
