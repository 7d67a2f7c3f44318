import Mathlib.Data.List.Forall2
import Logbook.Proofs.Text.Columns
import Logbook.Proofs.Time.Days
import Logbook.Time.Format

/-! What the text of an instant tells. From the year to the second a clock shows numbers in columns, and together they
    are the local second. Main statements: texts of the default format sort as the instants do and tell the
    millisecond, and the text of the universal pattern tells the second, at whatever offset it was taken. -/

namespace Logbook
open Text

namespace Instant

/-- One instant is not after another: by the second, then by what follows it, so that a leap second ends its second. -/
def NotAfter (a b : Instant) : Prop :=
  a.seconds < b.seconds ∨ a.seconds = b.seconds ∧ a.nanos ≤ b.nanos

/-- The number of the millisecond since 1970 that the instant lies in. -/
def millisecond (t : Instant) : Int :=
  1000 * t.seconds + (t.nanos / 1000000 : Nat)

/-- The milliseconds after the second, as they are shown. -/
def shownMillis (t : Instant) : Nat :=
  min t.nanos 999999999 / 1000000

/-! ### The numbers of a clock -/

/-- The numbers that are shown after the year. -/
def clock (t : Instant) : List Nat :=
  [t.date.month, t.date.day, t.hour, t.minute, t.second]

def clockColumns : List Column :=
  ['-', '-', ' ', ':', ':'].map fun gap => ⟨[gap], 2, by decide⟩

theorem holds_clock (t : Instant) : List.Forall₂ Column.Holds clockColumns t.clock := by
  obtain ⟨hmonth, hday⟩ : t.date.month ≤ 12 ∧ t.date.day ≤ 31 := Date.ofDayNumber_bounds t.dayNumber
  have hhour := t.hour_lt
  have hminute := t.minute_lt
  have hsecond := t.second_lt
  refine .cons ?_ (.cons ?_ (.cons ?_ (.cons ?_ (.cons ?_ .nil))))
  all_goals
    show _ < 100
    omega

section
variable {a b : Instant}

/-- The year and the numbers of the clock tell the local second. -/
theorem localSeconds_eq_of_clock (hyear : a.date.year = b.date.year) (hclock : a.clock = b.clock) :
    a.localSeconds = b.localSeconds := by
  simp only [clock, List.cons.injEq, and_true] at hclock
  obtain ⟨hmonth, hday, hhour, hminute, hsecond⟩ := hclock
  have hdate : a.date = b.date := by
    cases hd : a.date
    cases he : b.date
    simp_all
  have hnumber : a.dayNumber = b.dayNumber := Date.ofDayNumber_inj hdate
  rw [a.localSeconds_eq, b.localSeconds_eq, a.secondOfDay_eq, b.secondOfDay_eq, hnumber, hhour, hminute, hsecond]

theorem clock_eq_of_localSeconds (h : a.localSeconds = b.localSeconds) :
    a.date.year = b.date.year ∧ a.clock = b.clock := by
  have hnumber : a.dayNumber = b.dayNumber := by rw [dayNumber, h, dayNumber]
  have hdate : a.date = b.date := by rw [date, hnumber, date]
  have hday : a.secondOfDay = b.secondOfDay := by rw [secondOfDay, h, secondOfDay]
  refine ⟨by rw [hdate], ?_⟩
  rw [clock, clock, hdate, hour, hour, minute, minute, second, second, hday]

/-! ### The default format -/

/-- The numbers that the default format shows, for a year that has no sign. -/
def numbers (t : Instant) : List Nat :=
  t.date.year.toNat :: (t.clock ++ [t.shownMillis])

def numberColumns : List Column :=
  ⟨[], 4, by decide⟩ :: (clockColumns ++ [⟨['.'], 3, by decide⟩])

theorem holds_numbers {t : Instant} (h : t.date.year ≤ 9999) : List.Forall₂ Column.Holds numberColumns t.numbers := by
  have hyear : t.date.year.toNat < 10000 := by omega
  have hmillis : t.shownMillis < 1000 := by
    unfold shownMillis
    omega
  exact .cons hyear (List.rel_append t.holds_clock (.cons hmillis .nil))

theorem hour_lt_of_secondOfDay_lt (h : a.secondOfDay < b.secondOfDay) : a.hour < b.hour ∨
    a.hour = b.hour ∧ (a.minute < b.minute ∨ a.minute = b.minute ∧ a.second < b.second) := by
  have ha := a.secondOfDay_eq
  have hb := b.secondOfDay_eq
  have hminute := b.minute_lt
  have hsecond := b.second_lt
  omega

theorem shownMillis_mono (h : a.nanos ≤ b.nanos) : a.shownMillis ≤ b.shownMillis := by
  unfold shownMillis
  omega

/-- A later instant at the same offset is shown a later day, or a later second of the day, or more of that second. -/
theorem NotAfter.cases (h : a.NotAfter b) (hoffset : a.offset = b.offset) : a.dayNumber < b.dayNumber ∨
    a.dayNumber = b.dayNumber ∧ a.secondOfDay < b.secondOfDay ∨
      a.localSeconds = b.localSeconds ∧ a.nanos ≤ b.nanos := by
  have hlocal : a.localSeconds < b.localSeconds ∨ a.localSeconds = b.localSeconds ∧ a.nanos ≤ b.nanos := by
    unfold NotAfter at h
    unfold localSeconds
    omega
  have ha := a.localSeconds_eq
  have hb := b.localSeconds_eq
  have hlt := b.secondOfDay_lt
  omega

/-- Its numbers are later, or the same. -/
theorem numbers_lt_or_eq (h : a.NotAfter b) (hoffset : a.offset = b.offset) (ha : 0 ≤ a.date.year) :
    a.numbers < b.numbers ∨ a.numbers = b.numbers := by
  rcases h.cases hoffset with hday | ⟨hday, hsecond⟩ | ⟨hlocal, hnanos⟩
  · have hdates : a.date.Before b.date := Date.before_ofDayNumber hday
    unfold Date.Before at hdates
    simp only [numbers, clock, List.cons_append, List.cons_lt_cons_iff]
    left
    omega
  · have hdate : a.date = b.date := by rw [date, hday, date]
    simp only [numbers, clock, hdate, List.cons_append, List.cons_lt_cons_iff, Nat.lt_irrefl, false_or, true_and]
    left
    rcases hour_lt_of_secondOfDay_lt hsecond with hhour | ⟨hhour, hminute | ⟨hminute, hsecond⟩⟩
    · exact .inl hhour
    · exact .inr ⟨hhour, .inl hminute⟩
    · exact .inr ⟨hhour, .inr ⟨hminute, .inl hsecond⟩⟩
  · obtain ⟨hyear, hclock⟩ := clock_eq_of_localSeconds hlocal
    rw [numbers, numbers, hyear, hclock]
    rcases Nat.lt_or_eq_of_le (shownMillis_mono hnanos) with hlt | heq
    · left
      rw [List.cons_lt_cons_iff]
      exact .inr ⟨rfl, List.append_left_lt (List.cons_lt_cons_iff.mpr (.inl hlt))⟩
    · exact .inr (by rw [heq])

/-- Instants that are no leap seconds and are shown the same numbers lie in one millisecond. -/
theorem numbers_eq_iff (hoffset : a.offset = b.offset) (ha : 0 ≤ a.date.year) (hb : 0 ≤ b.date.year)
    (hna : a.nanos < 1000000000) (hnb : b.nanos < 1000000000) :
    a.numbers = b.numbers ↔ a.millisecond = b.millisecond := by
  have hma : a.shownMillis = a.nanos / 1000000 := by
    unfold shownMillis
    omega
  have hmb : b.shownMillis = b.nanos / 1000000 := by
    unfold shownMillis
    omega
  rw [numbers, numbers, hma, hmb, millisecond, millisecond]
  constructor
  · intro h
    obtain ⟨hyear, hrest⟩ := List.cons.inj h
    obtain ⟨hclock, hmillis⟩ := List.append_inj hrest rfl
    have hlocal := localSeconds_eq_of_clock (by omega) hclock
    have hmillis' := (List.cons.inj hmillis).1
    unfold localSeconds at hlocal
    omega
  · intro h
    have hlocal : a.localSeconds = b.localSeconds := by
      unfold localSeconds
      omega
    obtain ⟨hyear, hclock⟩ := clock_eq_of_localSeconds hlocal
    have hmillis : a.nanos / 1000000 = b.nanos / 1000000 := by omega
    rw [hyear, hclock, hmillis]

end
end Instant

namespace DateFormat
open Instant

/-! ### Texts -/

theorem render_clock (t : Instant) (back : List DatePart) :
    (DatePart.literal "-" :: .month 2 :: .literal "-" :: .day 2 :: .literal " " :: .hour24 2 :: .literal ":" ::
      .minute 2 :: .literal ":" :: .second 2 :: back).flatMap (DatePart.render t) =
      row clockColumns t.clock ++ back.flatMap (DatePart.render t) := by
  simp [DatePart.render, DatePart.short, clock, clockColumns, row]

theorem format_default {t : Instant} (h : 0 ≤ t.date.year) :
    ((default : DateFormat).format t).toList = row numberColumns t.numbers := by
  have hspec : (default : DateFormat) = ⟨defaultSpec, .year 4 :: .literal "-" :: .month 2 :: .literal "-" :: .day 2 ::
      .literal " " :: .hour24 2 :: .literal ":" :: .minute 2 :: .literal ":" :: .second 2 ::
      [.literal ".", .fraction 3 false], false⟩ := by decide +kernel
  have hyear : DatePart.render t (.year 4) = padded 4 t.date.year.toNat := by
    have habs : t.date.year.natAbs = t.date.year.toNat := by omega
    simp [DatePart.render, paddedInt, Int.not_lt.mpr h, habs]
  have hmillis : DatePart.render t (.fraction 3 false) = padded 3 t.shownMillis := rfl
  rw [hspec, format, if_neg Bool.false_ne_true, List.flatMap_cons, hyear, render_clock, List.flatMap_cons,
    List.flatMap_singleton, hmillis]
  simp [DatePart.render, numberColumns, numbers, clockColumns, clock, row]

theorem format_universal (t : Instant) : ((ofSpec "u").format t).toList =
    paddedInt 4 t.universal.date.year ++ (row clockColumns t.universal.clock ++ ['Z']) := by
  have hspec : ofSpec "u" = ⟨"u", .year 4 :: .literal "-" :: .month 2 :: .literal "-" :: .day 2 :: .literal " " ::
      .hour24 2 :: .literal ":" :: .minute 2 :: .literal ":" :: .second 2 :: [.literal "Z"], true⟩ := by decide +kernel
  rw [hspec, format, if_pos rfl, List.flatMap_cons, render_clock]
  simp [DatePart.render]

/-! ### What a text tells -/

/-- At one offset, and as long as years have four digits, texts of the default format sort as the instants do. But for
    leap seconds two of them are the same exactly where both instants lie in one millisecond. -/
theorem format_default_sorts {a b : Instant} (h : a.NotAfter b) (hoffset : a.offset = b.offset)
    (ha : 0 ≤ a.date.year ∧ a.date.year ≤ 9999) (hb : 0 ≤ b.date.year ∧ b.date.year ≤ 9999) :
    (default : DateFormat).format a ≤ (default : DateFormat).format b ∧
      (a.nanos < 1000000000 → b.nanos < 1000000000 →
        ((default : DateFormat).format a = (default : DateFormat).format b ↔ a.millisecond = b.millisecond)) := by
  have hholds := holds_numbers ha.2
  have hholds' := holds_numbers hb.2
  constructor
  · rw [← String.not_lt, String.lt_iff, format_default ha.1, format_default hb.1]
    intro hlater
    rcases numbers_lt_or_eq h hoffset ha.1 with hlt | heq
    · exact List.lt_asymm (row_lt_row hholds hholds' hlt) hlater
    · rw [heq] at hlater
      exact List.lt_irrefl _ hlater
  · intro hna hnb
    rw [← numbers_eq_iff hoffset ha.1 hb.1 hna hnb, ← String.toList_inj, format_default ha.1, format_default hb.1]
    exact ⟨row_inj hholds hholds', fun heq => by rw [heq]⟩

/-- A leap second at the end of a year, and two instants in the first millisecond after it. -/
theorem format_default_sorts_leap :
    let a : Instant := ⟨1483228799, 1999999999, 0⟩
    let b : Instant := ⟨1483228800, 0, 0⟩
    let c : Instant := ⟨1483228800, 999999, 0⟩
    a.NotAfter b ∧ b.NotAfter c ∧ (0 ≤ a.date.year ∧ a.date.year ≤ 9999) ∧ (0 ≤ b.date.year ∧ b.date.year ≤ 9999) ∧
      (default : DateFormat).format a = "2016-12-31 23:59:59.999" ∧
      (default : DateFormat).format a ≤ (default : DateFormat).format b ∧
      (default : DateFormat).format b = (default : DateFormat).format c := by
  intro a b c
  have hab : a.NotAfter b := .inl (by decide)
  have hbc : b.NotAfter c := .inr (by decide)
  have ha : 0 ≤ a.date.year ∧ a.date.year ≤ 9999 := by decide
  have hb : 0 ≤ b.date.year ∧ b.date.year ≤ 9999 := by decide
  refine ⟨hab, hbc, ha, hb, by decide +kernel, (format_default_sorts hab rfl ha hb).1, ?_⟩
  exact ((format_default_sorts hbc rfl hb hb).2 (by decide) (by decide)).mpr (by decide)

/-- The universal pattern tells the second of universal time, and nothing else. -/
theorem format_universal_iff (a b : Instant) :
    (ofSpec "u").format a = (ofSpec "u").format b ↔ a.seconds = b.seconds := by
  have hlocal (t : Instant) : t.universal.localSeconds = t.seconds := by
    simp [Instant.universal, localSeconds]
  rw [← String.toList_inj, format_universal, format_universal, ← hlocal a, ← hlocal b]
  constructor
  · intro h
    -- A year may have any length, so the text is cut from its end.
    have hlength : (row clockColumns a.universal.clock ++ ['Z']).length =
        (row clockColumns b.universal.clock ++ ['Z']).length := by
      rw [List.length_append, List.length_append, length_row (holds_clock _) (holds_clock _)]
    obtain ⟨hyear, hrest⟩ := List.append_inj' h hlength
    exact localSeconds_eq_of_clock (paddedInt_inj hyear)
      (row_inj (holds_clock _) (holds_clock _) (List.append_cancel_right hrest))
  · intro h
    obtain ⟨hyear, hclock⟩ := clock_eq_of_localSeconds h
    rw [hyear, hclock]

end DateFormat
end Logbook
