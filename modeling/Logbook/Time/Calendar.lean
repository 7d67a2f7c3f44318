/-! The Gregorian calendar, extended to all years before and after; the year before year 1 is year 0. Days are
    numbered from 1970-01-01. The calculation lets a year start in March, so that the leap day comes last in a
    year, the leap year last in four years, and the four years that lack it last in a century. Main statement:
    the day with a number has that number. -/

namespace Logbook

/-- A day of the calendar: months and days count from one. -/
structure Date where
  year : Int
  month : Nat
  day : Nat
deriving DecidableEq, Repr

namespace Date

/-! ### Day numbers -/

/-- The number of days from the first of March of year 0 to that of `year`. -/
def yearStart (year : Int) : Int :=
  365 * year + year / 4 - year / 100 + year / 400

/-- The number of days from the first of March to the month that is `month` places after it. -/
def monthStart (month : Nat) : Nat :=
  (153 * month + 2) / 5

/-- The number of days from the first of March of year 0 to 1970-01-01. -/
def epoch : Int :=
  719468

/-- The number of a day. -/
def dayNumber (d : Date) : Int :=
  if d.month ≤ 2 then yearStart (d.year - 1) + monthStart (d.month + 9) + d.day - 1 - epoch
  else yearStart d.year + monthStart (d.month - 3) + d.day - 1 - epoch

/-- The day that is `rest` days after the first of March of `year`. -/
def ofYearDay (year : Int) (rest : Nat) : Date :=
  let month := (5 * rest + 2) / 153
  let day := rest - monthStart month + 1
  if month < 10 then ⟨year, month + 3, day⟩ else ⟨year + 1, month - 9, day⟩

/-- The day with a number: the cycle of 400 years it lies in, then the century, the four years and the year,
    the last of each being a day longer. -/
def ofDayNumber (n : Int) : Date :=
  let cycle := (n + epoch) / 146097
  let rest := ((n + epoch) % 146097).toNat
  let century := min (rest / 36524) 3
  let rest := rest - 36524 * century
  let four := rest / 1461
  let rest := rest - 1461 * four
  let year := min (rest / 365) 3
  ofYearDay (400 * cycle + (100 * century + 4 * four + year : Nat)) (rest - 365 * year)

/-- The day of the week of the day with number `n`, from Monday as zero. -/
def weekday (n : Int) : Nat :=
  ((n + 3) % 7).toNat

/-! ### Lemmas -/

theorem dayNumber_ofYearDay {year : Int} {rest : Nat} (h : rest < 366) :
    (ofYearDay year rest).dayNumber = yearStart year + rest - epoch := by
  unfold ofYearDay dayNumber monthStart
  dsimp only
  split
  · rw [if_neg (by simp)]
    simp only [Nat.add_sub_cancel]
    omega
  · next hm =>
    have hm' : (5 * rest + 2) / 153 - 9 ≤ 2 := by omega
    have hm'' : (5 * rest + 2) / 153 - 9 + 9 = (5 * rest + 2) / 153 := by omega
    simp only [hm', hm'', if_true, Int.add_sub_cancel]
    omega

theorem yearStart_split (cycle : Int) {century four year : Nat} (hc : century < 4) (hf : four < 25)
    (hy : year < 4) : yearStart (400 * cycle + (100 * century + 4 * four + year : Nat)) =
      146097 * cycle + 36524 * century + 1461 * four + 365 * year := by
  have h4 : (400 * cycle + (100 * century + 4 * four + year : Nat)) / 4 =
      100 * cycle + 25 * century + four := by omega
  have h100 : (400 * cycle + (100 * century + 4 * four + year : Nat)) / 100 = 4 * cycle + century := by omega
  have h400 : (400 * cycle + (100 * century + 4 * four + year : Nat)) / 400 = cycle := by omega
  unfold yearStart
  rw [h4, h100, h400]
  omega

theorem dayNumber_ofDayNumber (n : Int) : (ofDayNumber n).dayNumber = n := by
  have h0 : 0 ≤ (n + epoch) % 146097 := Int.emod_nonneg _ (by decide)
  have h1 : (n + epoch) % 146097 < 146097 := Int.emod_lt_of_pos _ (by decide)
  have hd := Int.mul_ediv_add_emod (n + epoch) 146097
  unfold ofDayNumber
  dsimp only
  generalize hr : ((n + epoch) % 146097).toNat = rest at *
  have hrest : rest < 146097 := by omega
  generalize hc : min (rest / 36524) 3 = century at *
  have hc4 : century < 4 := by omega
  have hcr : 36524 * century ≤ rest ∧ rest - 36524 * century < 36525 := by omega
  generalize hr' : rest - 36524 * century = rest' at *
  generalize hf : rest' / 1461 = four at *
  have hf25 : four < 25 := by omega
  generalize hr'' : rest' - 1461 * four = rest'' at *
  have hr3 : rest'' < 1461 := by omega
  generalize hy : min (rest'' / 365) 3 = year at *
  have hy4 : year < 4 := by omega
  rw [dayNumber_ofYearDay (by omega), yearStart_split _ hc4 hf25 hy4]
  omega

end Date
end Logbook
