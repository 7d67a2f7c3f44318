import Logbook.Decision
import Logbook.Text.Digits

/-! Lines on a console: which stream they go to, what is put in front of them, and how they are colored. -/

namespace Logbook
namespace Console

/-- The two output streams of a console. -/
inductive Stream where
  | out
  | err
deriving DecidableEq, Repr

/-! ### Colored text -/

def reset : List Char :=
  ['\x1b', '[', '0', 'm']

def start (color : Color) : List Char :=
  '\x1b' :: '[' :: (Text.digits color.foreground ++ ['m'])

/-- A text in which `code` follows each code that ends coloring. -/
def restart (code : List Char) : List Char → List Char
  | [] => []
  | '\x1b' :: '[' :: '0' :: 'm' :: rest => reset ++ (code ++ restart code rest)
  | c :: rest => c :: restart code rest

/-- A text in a color, which goes on after codes in the text that end it. -/
def paint (color : Color) (text : String) : String :=
  String.ofList (start color ++ (restart (start color) text.toList ++ reset))

/-! ### Lines -/

/-- What a stream line of each severity starts with, and the stream it goes to. -/
def stream? : Severity → Option (Stream × String)
  | .off => none
  | .error => some (.err, "")
  | .warning => some (.err, "WARNING: ")
  | .information => some (.out, "")
  | .debug => some (.out, "DEBUG: ")
  | .verbose => some (.out, "VERBOSE: ")

/-- The line of a decision and the stream that it goes to. Only lines for the host are colored, and only where
    `colors` allows it. -/
def line? (colors : Bool) (d : Decision) : Option (Stream × String) :=
  match d.destination with
  | .host =>
    match d.color with
    | some color => some (.out, if colors then paint color d.text else d.text)
    | none => some (.out, d.text)
  | .streams => (stream? d.severity).map fun (stream, label) => (stream, label ++ d.text)

/-! ### Screens -/

/-- What a console has shown on either stream, and whether it shows colors at all. -/
structure Screen where
  out : String
  err : String
  colors : Bool
deriving DecidableEq, Repr

def Screen.print (s : Screen) (stream : Stream) (line : String) : Screen :=
  match stream with
  | .out => { s with out := s.out ++ line ++ "\n" }
  | .err => { s with err := s.err ++ line ++ "\n" }

def Screen.clear (s : Screen) : Screen :=
  { s with out := "", err := "" }

end Console
end Logbook
