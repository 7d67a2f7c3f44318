import Logbook.Path
import Logbook.Text.Blank
import Logbook.Text.Digits
import Logbook.Time.Calendar

/-! Where a log file lies: its configured name, read from a base directory, with the date of the day between the
    stem and the extension where that is wanted. -/

namespace Logbook

namespace Date

/-- The year in a file name: four digits, and a sign in front where four digits are not enough or the year is
    negative. -/
def yearStamp (year : Int) : List Char :=
  if 0 ≤ year ∧ year ≤ 9999 then Text.padded 4 year.natAbs
  else (if year < 0 then '-' else '+') :: Text.padded 4 year.natAbs

/-- The date in a file name: year, month and day. -/
def stamp (d : Date) : String :=
  String.ofList (yearStamp d.year ++ Text.padded 2 d.month ++ Text.padded 2 d.day)

end Date

namespace Path

/-- The path with `stamp` put between the stem and the extension of its file name. -/
def dated (p : Path) (stamp : String) : Path :=
  match p.fileName? with
  | none => p.withFileName ("_" ++ stamp)
  | some name =>
    match splitName name with
    | (stem, none) => p.withFileName (stem ++ "_" ++ stamp)
    | (stem, some extension) => p.withFileName (stem ++ "_" ++ stamp ++ "." ++ extension)

end Path

/-- The path of the log file with this configured name; a blank name has the empty path. -/
def logPath (name : String) (withDate : Bool) (base : Path) (day : Date) : Path :=
  if Text.isBlankText name then default
  else
    let path := base.join ⟨Text.trimmed name⟩
    if withDate then path.dated day.stamp else path

end Logbook
