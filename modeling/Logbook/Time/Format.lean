import Logbook.Text.Digits
import Logbook.Time.Instant

/-! Date and time formats. A specification is a run of letters for each part, such as `yyyy-MM-dd`, with quotes
    and backslashes around what is meant literally; a specification of one letter names a standard one. Every
    text is a specification. -/

namespace Logbook

/-- A part of a date and time format. A width is the number of letters that asked for the part. -/
inductive DatePart where
  | literal (text : String)
  | year (width : Nat)
  | month (width : Nat)
  | day (width : Nat)
  | hour24 (width : Nat)
  | hour12 (width : Nat)
  | minute (width : Nat)
  | second (width : Nat)
  /-- The first digits of the fraction of a second; trimmed, it has no zeros at its end. -/
  | fraction (digits : Nat) (trim : Bool)
  | amPm (width : Nat)
  | offset (width : Nat)
  /-- The offset in full. -/
  | zone
  | era
deriving DecidableEq, Repr

/-- A date and time format: the specification, its parts in order, and whether it shows universal time. -/
structure DateFormat where
  spec : String
  parts : List DatePart
  universal : Bool
deriving DecidableEq, Repr

/-! ### Compiling a specification -/

namespace DatePart

/-- The part that a run of `run` letters `c` asks for. Longer runs than a part has forms mean the longest. -/
def ofRun? (c : Char) (run : Nat) : Option DatePart :=
  match c with
  | 'y' => some (.year (min run 5))
  | 'M' => some (.month (min run 4))
  | 'd' => some (.day (min run 4))
  | 'H' => some (.hour24 (min run 2))
  | 'h' => some (.hour12 (min run 2))
  | 'm' => some (.minute (min run 2))
  | 's' => some (.second (min run 2))
  | 'f' => some (.fraction (min run 7) false)
  | 'F' => some (.fraction (min run 7) true)
  | 't' => some (.amPm (min run 2))
  | 'z' => some (.offset (min run 3))
  | 'g' => some .era
  | _ => none

/-- The parts of a pattern, each literal piece by itself: what stands between quotes, what a backslash is put
    in front of, and every character that asks for nothing. A percent sign only ends a run. A quote that is not
    closed reaches to the end. -/
def pieces (pattern : List Char) : List DatePart :=
  match pattern with
  | [] => []
  | c :: rest =>
    if c = '\'' || c = '"' then
      have : (rest.dropWhile (· != c)).length ≤ rest.length := (List.dropWhile_sublist _).length_le
      .literal (String.ofList (rest.takeWhile (· != c))) :: pieces ((rest.dropWhile (· != c)).drop 1)
    else if c = '\\' then
      match rest with
      | [] => []
      | d :: rest => .literal (String.singleton d) :: pieces rest
    else if c = '%' then pieces rest
    else if c = 'K' then .zone :: pieces rest
    else
      match ofRun? c ((rest.takeWhile (· == c)).length + 1) with
      | some part =>
        have : (rest.dropWhile (· == c)).length ≤ rest.length := (List.dropWhile_sublist _).length_le
        part :: pieces (rest.dropWhile (· == c))
      | none => .literal (String.singleton c) :: pieces rest
termination_by pattern.length

/-- The parts with neighbouring literals put together. -/
def merge : List DatePart → List DatePart
  | [] => []
  | .literal text :: rest =>
    match merge rest with
    | .literal more :: rest => .literal (text ++ more) :: rest
    | rest => .literal text :: rest
  | part :: rest => part :: merge rest

end DatePart

namespace DateFormat

/-- The pattern that a standard specification stands for, and whether it shows universal time. -/
def standard? : Char → Option (String × Bool)
  | 'd' => some ("MM/dd/yyyy", false)
  | 'D' => some ("dddd, dd MMMM yyyy", false)
  | 'f' => some ("dddd, dd MMMM yyyy HH:mm", false)
  | 'F' => some ("dddd, dd MMMM yyyy HH:mm:ss", false)
  | 'g' => some ("MM/dd/yyyy HH:mm", false)
  | 'G' => some ("MM/dd/yyyy HH:mm:ss", false)
  | 'M' => some ("MMMM dd", false)
  | 'm' => some ("MMMM dd", false)
  | 'o' => some ("yyyy'-'MM'-'dd'T'HH':'mm':'ss'.'fffffffK", false)
  | 'O' => some ("yyyy'-'MM'-'dd'T'HH':'mm':'ss'.'fffffffK", false)
  | 'r' => some ("ddd, dd MMM yyyy HH':'mm':'ss 'GMT'", true)
  | 'R' => some ("ddd, dd MMM yyyy HH':'mm':'ss 'GMT'", true)
  | 's' => some ("yyyy'-'MM'-'dd'T'HH':'mm':'ss", false)
  | 't' => some ("HH:mm", false)
  | 'T' => some ("HH:mm:ss", false)
  | 'u' => some ("yyyy'-'MM'-'dd HH':'mm':'ss'Z'", true)
  | 'U' => some ("dddd, dd MMMM yyyy HH:mm:ss", true)
  | 'y' => some ("yyyy MMMM", false)
  | 'Y' => some ("yyyy MMMM", false)
  | _ => none

/-- The pattern of a specification, and whether it shows universal time. -/
def pattern (spec : String) : List Char × Bool :=
  match spec.toList with
  | [c] =>
    match standard? c with
    | some (pattern, universal) => (pattern.toList, universal)
    | none => ([c], false)
  | cs => (cs, false)

def ofSpec (spec : String) : DateFormat :=
  ⟨spec, DatePart.merge (DatePart.pieces (pattern spec).1), (pattern spec).2⟩

/-- The specification that is used where none is given. -/
def defaultSpec : String :=
  "yyyy-MM-dd HH:mm:ss.fff"

instance : Inhabited DateFormat := ⟨ofSpec defaultSpec⟩

end DateFormat

/-! ### Showing an instant -/

namespace DatePart

/-- The name of a month, counted from one. -/
def monthName : Nat → String
  | 1 => "January"
  | 2 => "February"
  | 3 => "March"
  | 4 => "April"
  | 5 => "May"
  | 6 => "June"
  | 7 => "July"
  | 8 => "August"
  | 9 => "September"
  | 10 => "October"
  | 11 => "November"
  | _ => "December"

/-- The name of a day of the week, counted from Monday as zero. -/
def weekdayName : Nat → String
  | 0 => "Monday"
  | 1 => "Tuesday"
  | 2 => "Wednesday"
  | 3 => "Thursday"
  | 4 => "Friday"
  | 5 => "Saturday"
  | _ => "Sunday"

/-- The hour of a clock with twelve hours: noon and midnight are both twelve. -/
def clockHour (hour : Nat) : Nat :=
  if hour % 12 = 0 then 12 else hour % 12

/-- Number `n` with the least number of digits that a width of one or more letters asks for. -/
def short (width n : Nat) : List Char :=
  if width = 1 then Text.digits n else Text.padded 2 n

/-- The first digits of the nine of a fraction of a second; a leap second counts as the end of the second
    before it. -/
def fractionDigits (digits nanos : Nat) : List Char :=
  Text.padded digits (min nanos 999999999 / Nat.pow 10 (9 - digits))

def trimZeros (ds : List Char) : List Char :=
  (ds.reverse.dropWhile (· == '0')).reverse

/-- The sign of an offset, which a zero offset has too. -/
def offsetSign (offset : Int) : Char :=
  if offset < 0 then '-' else '+'

def offsetText (offset : Int) : List Char :=
  offsetSign offset :: (Text.padded 2 (offset.natAbs / 3600) ++ ':' :: Text.padded 2 (offset.natAbs % 3600 / 60))

def render (t : Instant) : DatePart → List Char
  | .literal text => text.toList
  | .year width =>
    if width = 1 then Text.digits (t.date.year % 100).toNat
    else if width = 2 then Text.padded 2 (t.date.year % 100).toNat
    else Text.paddedInt width t.date.year
  | .month width =>
    if width ≤ 2 then short width t.date.month
    else if width = 3 then (monthName t.date.month).toList.take 3
    else (monthName t.date.month).toList
  | .day width =>
    if width ≤ 2 then short width t.date.day
    else if width = 3 then (weekdayName t.weekday).toList.take 3
    else (weekdayName t.weekday).toList
  | .hour24 width => short width t.hour
  | .hour12 width => short width (clockHour t.hour)
  | .minute width => short width t.minute
  | .second width => short width t.second
  | .fraction digits trim =>
    if trim then trimZeros (fractionDigits digits t.nanos) else fractionDigits digits t.nanos
  | .amPm width => (if t.hour < 12 then ['A', 'M'] else ['P', 'M']).take width
  | .offset width =>
    if width ≤ 2 then offsetSign t.offset :: short width (t.offset.natAbs / 3600) else offsetText t.offset
  | .zone => offsetText t.offset
  | .era => if 0 < t.date.year then ['A', '.', 'D', '.'] else ['B', '.', 'C', '.']

end DatePart

namespace DateFormat

def format (f : DateFormat) (t : Instant) : String :=
  String.ofList (f.parts.flatMap (DatePart.render (if f.universal then t.universal else t)))

end DateFormat
end Logbook
