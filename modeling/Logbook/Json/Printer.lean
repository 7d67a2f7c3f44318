import Logbook.Json.Basic

/-! JSON text of a value, on one line or indented by two spaces. A string is written with the short escapes
    where JSON has one, other control characters as four hexadecimal digits, and all else as it is. -/

namespace Logbook
namespace Json

/-! ### Strings -/

def hexDigit (n : Nat) : Char :=
  Nat.digitChar n

/-- Character `c` as it is written inside a string. -/
def escape (c : Char) : List Char :=
  if c = '"' then ['\\', '"']
  else if c = '\\' then ['\\', '\\']
  else if c = '\x08' then ['\\', 'b']
  else if c = '\x0c' then ['\\', 'f']
  else if c = '\n' then ['\\', 'n']
  else if c = '\r' then ['\\', 'r']
  else if c = '\t' then ['\\', 't']
  else if c < ' ' then ['\\', 'u', '0', '0', hexDigit (c.toNat / 16), hexDigit (c.toNat % 16)]
  else [c]

/-- Text `s` as a JSON string. -/
def quoted (s : String) : List Char :=
  '"' :: (s.toList.flatMap escape ++ ['"'])

def word (b : Bool) : List Char :=
  if b then ['t', 'r', 'u', 'e'] else ['f', 'a', 'l', 's', 'e']

/-! ### One line -/

mutual

/-- A value on one line, without blanks. -/
def compact : Value → List Char
  | .text s => quoted s
  | .truth b => word b
  | .object members => '{' :: (compactMembers members ++ ['}'])

/-- The members of an object on one line, with commas between them. -/
def compactMembers : List (String × Value) → List Char
  | [] => []
  | (key, value) :: rest => quoted key ++ ':' :: (compact value ++ compactRest rest)

/-- The members after the first, each with the comma in front of it. -/
def compactRest : List (String × Value) → List Char
  | [] => []
  | (key, value) :: rest => ',' :: (quoted key ++ ':' :: (compact value ++ compactRest rest))

end

/-! ### Indented -/

/-- A new line at nesting `depth`. -/
def newLine (depth : Nat) : List Char :=
  '\n' :: List.replicate (2 * depth) ' '

mutual

/-- A value at nesting `depth`, each member of an object on a line of its own; an object without members stays
    on the line. -/
def pretty (depth : Nat) : Value → List Char
  | .text s => quoted s
  | .truth b => word b
  | .object [] => ['{', '}']
  | .object ((key, value) :: rest) =>
    '{' :: (newLine (depth + 1) ++ (quoted key ++ ':' :: ' ' ::
      (pretty (depth + 1) value ++ (prettyRest depth rest ++ (newLine depth ++ ['}'])))))

/-- The members after the first, each with the comma in front of it. -/
def prettyRest (depth : Nat) : List (String × Value) → List Char
  | [] => []
  | (key, value) :: rest =>
    ',' :: (newLine (depth + 1) ++ (quoted key ++ ':' :: ' ' ::
      (pretty (depth + 1) value ++ prettyRest depth rest)))

end

def Value.compactText (v : Value) : String :=
  String.ofList (compact v)

/-- The text of a value, indented. -/
def Value.prettyText (v : Value) : String :=
  String.ofList (pretty 0 v)

end Json
end Logbook
