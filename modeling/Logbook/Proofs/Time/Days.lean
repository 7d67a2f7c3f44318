import Logbook.Time.Calendar

/-! Days of the calendar in order. A day lies in one year from March to February, and there it is found by the
    number of days since the first of March. Main statements: different numbers have different dates, and a later
    day has the later year, or the later month of a year, or the later day of a month. -/

namespace Logbook
namespace Date

theorem ofYearDay_bounds {year : Int} {rest : Nat} (h : rest < 366) :
    (ofYearDay year rest).month ≤ 12 ∧ (ofYearDay year rest).day ≤ 31 := by
  unfold ofYearDay monthStart
  dsimp only
  split <;> constructor <;> dsimp only <;> omega

theorem yearStart_succ (cycle : Int) {century four year : Nat} (hc : century < 4) (hf : four < 25) (hy : year < 4) :
    yearStart (400 * cycle + (100 * century + 4 * four + year : Nat) + 1) =
      146097 * cycle + 36524 * century + 1461 * four + 365 * (year + 1) +
        (if year = 3 then if four = 24 then if century = 3 then 1 else 0 else 1 else 0) := by
  unfold yearStart
  split
  · split
    · split <;> omega
    · omega
  · omega

/-- A day with a number is one of the 366 days after some first of March, and comes before the next. -/
theorem ofDayNumber_eq (n : Int) : ∃ year rest, ofDayNumber n = ofYearDay year rest ∧ rest < 366 ∧
    n + epoch < yearStart (year + 1) := by
  have h0 : 0 ≤ (n + epoch) % 146097 := Int.emod_nonneg _ (by decide)
  have h1 : (n + epoch) % 146097 < 146097 := Int.emod_lt_of_pos _ (by decide)
  have hd := Int.mul_ediv_add_emod (n + epoch) 146097
  refine ⟨_, _, rfl, ?_⟩
  generalize hr : ((n + epoch) % 146097).toNat = rest
  generalize hc : min (rest / 36524) 3 = century
  generalize hr' : rest - 36524 * century = rest'
  have hcentury : century < 4 ∧ rest' < 36525 ∧ (century < 3 → rest' < 36524) := by omega
  generalize hf : rest' / 1461 = four
  generalize hr'' : rest' - 1461 * four = rest''
  have hfour : four < 25 ∧ rest'' < 1461 := by omega
  generalize hy : min (rest'' / 365) 3 = year
  have hyear : year < 4 ∧ rest'' - 365 * year < 366 := by omega
  refine ⟨hyear.2, ?_⟩
  -- The last year of four has the leap day, but the last four of a century only once in four hundred years.
  rw [yearStart_succ _ hcentury.1 hfour.1 hyear.1]
  split
  · split
    · split <;> omega
    · omega
  · omega

theorem ofDayNumber_bounds (n : Int) : (ofDayNumber n).month ≤ 12 ∧ (ofDayNumber n).day ≤ 31 := by
  obtain ⟨year, rest, h, hrest, -⟩ := ofDayNumber_eq n
  rw [h]
  exact ofYearDay_bounds hrest

theorem one_le_month (n : Int) : 1 ≤ (ofDayNumber n).month := by
  obtain ⟨year, rest, h, -, -⟩ := ofDayNumber_eq n
  rw [h]
  unfold ofYearDay
  dsimp only
  split <;> dsimp only <;> omega

theorem weekday_lt (n : Int) : weekday n < 7 := by
  unfold weekday
  omega

theorem ofDayNumber_inj {m n : Int} (h : ofDayNumber m = ofDayNumber n) : m = n := by
  rw [← dayNumber_ofDayNumber m, h, dayNumber_ofDayNumber]

/-! ### Order -/

/-- One date comes before another: by the year, then by the month, then by the day. -/
def Before (d e : Date) : Prop :=
  d.year < e.year ∨ d.year = e.year ∧ (d.month < e.month ∨ d.month = e.month ∧ d.day < e.day)

theorem yearStart_mono {y z : Int} (h : y ≤ z) : yearStart y ≤ yearStart z := by
  unfold yearStart
  omega

theorem before_ofYearDay {y z : Int} {r s : Nat} (hr : r < 366) (hs : s < 366) (h : y < z ∨ y = z ∧ r < s) :
    (ofYearDay y r).Before (ofYearDay z s) := by
  unfold Before ofYearDay monthStart
  dsimp only
  split <;> split <;> dsimp only <;> omega

/-- A later day has a later date. -/
theorem before_ofDayNumber {m n : Int} (h : m < n) : (ofDayNumber m).Before (ofDayNumber n) := by
  obtain ⟨y, r, hm, hr, hmy⟩ := ofDayNumber_eq m
  obtain ⟨z, s, hn, hs, hnz⟩ := ofDayNumber_eq n
  have hm' := dayNumber_ofDayNumber m
  have hn' := dayNumber_ofDayNumber n
  rw [hm, dayNumber_ofYearDay hr] at hm'
  rw [hn, dayNumber_ofYearDay hs] at hn'
  rw [hm, hn]
  apply before_ofYearDay hr hs
  rcases Int.lt_trichotomy y z with hlt | rfl | hlt
  · exact .inl hlt
  · exact .inr ⟨rfl, by omega⟩
  · have hmono := yearStart_mono (show z + 1 ≤ y from hlt)
    omega

end Date
end Logbook
