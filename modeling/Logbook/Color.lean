import Logbook.Error
import Logbook.Text.Blank
import Logbook.Text.Letter

/-! The sixteen console colors, and the terminal codes that select them. -/

namespace Logbook

/-- The colors of a console, in the order in which they are listed. -/
inductive Color where
  | black
  | darkBlue
  | darkGreen
  | darkCyan
  | darkRed
  | darkMagenta
  | darkYellow
  | gray
  | darkGray
  | blue
  | green
  | cyan
  | red
  | magenta
  | yellow
  | white
deriving DecidableEq, Repr

namespace Color

/-- All colors, in order. -/
def all : List Color :=
  [.black, .darkBlue, .darkGreen, .darkCyan, .darkRed, .darkMagenta, .darkYellow, .gray, .darkGray, .blue,
   .green, .cyan, .red, .magenta, .yellow, .white]

def name : Color → String
  | .black => "Black"
  | .darkBlue => "DarkBlue"
  | .darkGreen => "DarkGreen"
  | .darkCyan => "DarkCyan"
  | .darkRed => "DarkRed"
  | .darkMagenta => "DarkMagenta"
  | .darkYellow => "DarkYellow"
  | .gray => "Gray"
  | .darkGray => "DarkGray"
  | .blue => "Blue"
  | .green => "Green"
  | .cyan => "Cyan"
  | .red => "Red"
  | .magenta => "Magenta"
  | .yellow => "Yellow"
  | .white => "White"

/-- The terminal code that sets the foreground: the dark colors are the plain ones of a terminal, the others
    its bright ones. -/
def foreground : Color → Nat
  | .black => 30
  | .darkRed => 31
  | .darkGreen => 32
  | .darkYellow => 33
  | .darkBlue => 34
  | .darkMagenta => 35
  | .darkCyan => 36
  | .gray => 37
  | .darkGray => 90
  | .red => 91
  | .green => 92
  | .yellow => 93
  | .blue => 94
  | .magenta => 95
  | .cyan => 96
  | .white => 97

/-- The color with this name, up to blanks around it and the case of ASCII letters. -/
def ofName? (name : String) : Option Color :=
  all.find? fun c => Text.sameLetters c.name (Text.trimmed name)

/-- The color with this name, or the error that there is none. -/
def ofName (name : String) : Except Error Color :=
  match ofName? name with
  | some c => .ok c
  | none => .error (.invalidColor name)

/-! ### Lemmas -/

theorem mem_all (c : Color) : c ∈ all := by
  cases c <;> decide

end Color
end Logbook
