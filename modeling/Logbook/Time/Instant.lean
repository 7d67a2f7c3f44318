import Logbook.Time.Calendar

/-! Instants, and what a clock at some offset from universal time shows of them. A leap second is the last second
    of its minute with a fraction above one. -/

namespace Logbook

/-- A second of universal time since 1970, the nanoseconds after it, and the offset of the local time, in
    seconds to the east. -/
structure Instant where
  seconds : Int
  nanos : Nat
  offset : Int
deriving DecidableEq, Repr

namespace Instant

def universal (t : Instant) : Instant :=
  { t with offset := 0 }

/-- The seconds since 1970 that a clock at the offset would count. -/
def localSeconds (t : Instant) : Int :=
  t.seconds + t.offset

/-- The number of the local day. -/
def dayNumber (t : Instant) : Int :=
  t.localSeconds / 86400

def date (t : Instant) : Date :=
  Date.ofDayNumber t.dayNumber

/-- The local day of the week, from Monday as zero. -/
def weekday (t : Instant) : Nat :=
  Date.weekday t.dayNumber

def secondOfDay (t : Instant) : Nat :=
  (t.localSeconds % 86400).toNat

/-- The local hour, from 0 to 23. -/
def hour (t : Instant) : Nat :=
  t.secondOfDay / 3600

/-- The local minute, from 0 to 59. -/
def minute (t : Instant) : Nat :=
  t.secondOfDay / 60 % 60

/-- The local second, from 0 to 59. -/
def second (t : Instant) : Nat :=
  t.secondOfDay % 60

/-! ### Lemmas -/

theorem secondOfDay_lt (t : Instant) : t.secondOfDay < 86400 := by
  unfold secondOfDay
  omega

theorem localSeconds_eq (t : Instant) : t.localSeconds = 86400 * t.dayNumber + t.secondOfDay := by
  unfold dayNumber secondOfDay
  omega

theorem secondOfDay_eq (t : Instant) : t.secondOfDay = 3600 * t.hour + 60 * t.minute + t.second := by
  unfold hour minute second
  omega

theorem hour_lt (t : Instant) : t.hour < 24 := by
  have := t.secondOfDay_lt
  unfold hour
  omega

theorem minute_lt (t : Instant) : t.minute < 60 := by
  unfold minute
  omega

theorem second_lt (t : Instant) : t.second < 60 := by
  unfold second
  omega

end Instant
end Logbook
