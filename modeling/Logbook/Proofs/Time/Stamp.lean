import Logbook.LogPath
import Logbook.Proofs.Text.Columns
import Logbook.Proofs.Time.Days
import Logbook.Time.Format

/-! The date in a file name tells the day: different days have different stamps. A stamp is cut from its end, where
    month and day have two digits each, because the text of a year may have any length. -/

namespace Logbook

namespace Date

theorem yearStamp_inj {y z : Int} (h : yearStamp y = yearStamp z) : y = z := by
  -- A year of four digits starts with a digit and any other with a sign, so the mixed cases cannot happen.
  by_cases hy : 0 ≤ y ∧ y ≤ 9999 <;> by_cases hz : 0 ≤ z ∧ z ≤ 9999
  · rw [yearStamp, yearStamp, if_pos hy, if_pos hz] at h
    have := Text.padded_inj h
    omega
  · rw [yearStamp, yearStamp, if_pos hy, if_neg hz] at h
    exact absurd h.symm (Text.sign_ne_padded (by split <;> decide))
  · rw [yearStamp, yearStamp, if_neg hy, if_pos hz] at h
    exact absurd h (Text.sign_ne_padded (by split <;> decide))
  · rw [yearStamp, yearStamp, if_neg hy, if_neg hz] at h
    obtain ⟨hsign, hdigits⟩ := List.cons.inj h
    have := Text.padded_inj hdigits
    split at hsign <;> split at hsign
    · omega
    · cases hsign
    · cases hsign
    · omega

/-- Different dates have different stamps. -/
theorem eq_of_stamp_eq {d d' : Date} (hd : d.month ≤ 12 ∧ d.day ≤ 31) (hd' : d'.month ≤ 12 ∧ d'.day ≤ 31)
    (h : d.stamp = d'.stamp) : d = d' := by
  have h' := String.ofList_injective h
  obtain ⟨h', hday⟩ := List.append_inj' h' (by
    rw [Text.length_padded_two (by omega), Text.length_padded_two (by omega)])
  obtain ⟨hyear, hmonth⟩ := List.append_inj' h' (by
    rw [Text.length_padded_two (by omega), Text.length_padded_two (by omega)])
  obtain ⟨year, month, day⟩ := d
  obtain ⟨year', month', day'⟩ := d'
  rw [Date.mk.injEq]
  exact ⟨yearStamp_inj hyear, Text.padded_inj hmonth, Text.padded_inj hday⟩

theorem slash_not_mem_stamp (d : Date) : '/' ∉ d.stamp.toList := by
  have hpadded : ∀ width n : Nat, '/' ∉ Text.padded width n := by
    intro width n h
    exact absurd (Text.isDigit_of_mem_padded h) (by decide)
  have hyear : '/' ∉ yearStamp d.year := by
    unfold yearStamp
    split
    · exact hpadded _ _
    · split <;> simp [hpadded]
  simp [stamp, hyear, hpadded]

theorem length_stamp {n : Int} (h : 0 ≤ (ofDayNumber n).year ∧ (ofDayNumber n).year ≤ 9999) :
    (ofDayNumber n).stamp.length = 8 := by
  obtain ⟨hmonth, hday⟩ := ofDayNumber_bounds n
  have hyear : (ofDayNumber n).year.natAbs < Nat.pow 10 4 := by
    show (ofDayNumber n).year.natAbs < 10000
    omega
  rw [stamp, String.length_ofList, yearStamp, if_pos h, List.length_append, List.length_append,
    Text.length_padded (by decide) hyear, Text.length_padded_two (by omega), Text.length_padded_two (by omega)]

end Date

/-- For a year of four digits the stamp is what the specification `yyyyMMdd` shows of the day. -/
theorem format_stamp {t : Instant} (h : 0 ≤ t.date.year ∧ t.date.year ≤ 9999) :
    (DateFormat.ofSpec "yyyyMMdd").format t = t.date.stamp := by
  have hspec : DateFormat.ofSpec "yyyyMMdd" = ⟨"yyyyMMdd", [.year 4, .month 2, .day 2], false⟩ := by decide +kernel
  have hyear : DatePart.render t (.year 4) = Date.yearStamp t.date.year := by
    rw [DatePart.render, Date.yearStamp, if_pos h]
    simp [Text.paddedInt, Int.not_lt.mpr h.1]
  have hmonth : DatePart.render t (.month 2) = Text.padded 2 t.date.month := rfl
  have hday : DatePart.render t (.day 2) = Text.padded 2 t.date.day := rfl
  rw [hspec, DateFormat.format]
  simp [Date.stamp, hyear, hmonth, hday]

end Logbook
