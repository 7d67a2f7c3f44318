import Mathlib.Data.List.DropRight
import Mathlib.Data.List.TakeWhile
import Logbook.Text.Blank

/-! Trimming a text. Main statements: nothing is left exactly of a blank text, and what is left of any other is not
    blank. -/

namespace Logbook
namespace Text

theorem trimEnd_eq_nil_iff {s : List Char} : trimEnd s = [] ↔ ∀ c ∈ s, isBlank c = true := by
  rw [trimEnd, List.reverse_eq_nil_iff, List.dropWhile_eq_nil_iff]
  simp

theorem trim_eq_nil_iff {s : List Char} : trim s = [] ↔ ∀ c ∈ s, isBlank c = true := by
  rw [trim, trimEnd_eq_nil_iff]
  constructor
  · intro h
    cases hs : trimStart s with
    | nil => exact List.dropWhile_eq_nil_iff.mp hs
    | cons c rest =>
      have hc : isBlank c = true := h c (hs ▸ List.mem_cons_self)
      have hnot := List.head?_dropWhile_not isBlank s
      rw [show s.dropWhile isBlank = c :: rest from hs] at hnot
      exact absurd hc (Bool.eq_false_iff.mp hnot)
  · intro h c hc
    exact h c ((List.dropWhile_sublist _).mem hc)

theorem trimmed_eq_empty_iff {s : String} : trimmed s = "" ↔ isBlankText s = true := by
  rw [← String.toList_inj, toList_trimmed, String.toList_empty, trim_eq_nil_iff, isBlankText, List.all_eq_true]

theorem isBlankText_eq_false_iff {s : String} : isBlankText s = false ↔ trimmed s ≠ "" := by
  rw [ne_eq, trimmed_eq_empty_iff, Bool.not_eq_true]

/-! ### What trimming leaves -/

theorem trimEnd_trimEnd (s : List Char) : trimEnd (trimEnd s) = trimEnd s := by
  rw [trimEnd, trimEnd, List.reverse_reverse, List.dropWhile_idempotent]

theorem length_trimEnd_le (s : List Char) : (trimEnd s).length ≤ s.length := by
  have hle := (List.dropWhile_sublist (l := s.reverse) isBlank).length_le
  rw [trimEnd, List.length_reverse]
  rwa [List.length_reverse] at hle

theorem trim_sublist (s : List Char) : (trim s).Sublist s := by
  have hend : (trimEnd (trimStart s)).Sublist (trimStart s) := by
    rw [trimEnd, ← List.reverse_sublist, List.reverse_reverse]
    exact List.dropWhile_sublist isBlank
  exact hend.trans (List.dropWhile_sublist isBlank)

/-- A trimmed text does not end with blanks. -/
theorem eq_nil_of_trim_eq_append {s front back : List Char} (h : trim s = front ++ back)
    (hback : ∀ c ∈ back, isBlank c = true) : back = [] := by
  have hfront : trimEnd front = front ++ back := by
    rw [← trimEnd_append_blank hback, ← h, trim, trimEnd_trimEnd]
  have hlength := length_trimEnd_le front
  rw [hfront, List.length_append] at hlength
  exact List.eq_nil_of_length_eq_zero (by omega)

/-- Nothing is taken from a text without blanks. -/
theorem trim_of_no_blank {s : List Char} (h : ∀ c ∈ s, isBlank c = false) : trim s = s := by
  have hdrop {t : List Char} (ht : ∀ c ∈ t, isBlank c = false) : t.dropWhile isBlank = t := by
    cases t with
    | nil => rfl
    | cons c t => rw [List.dropWhile_cons_of_neg (by simp [ht c List.mem_cons_self])]
  rw [trim, trimStart, hdrop h, trimEnd, hdrop fun c hc => h c (List.mem_reverse.mp hc), List.reverse_reverse]

/-- Trimming a second time takes nothing more. -/
theorem trim_trim (s : List Char) : trim (trim s) = trim s := by
  have hstart : trimStart (trim s) = trim s := by
    cases hs : trim s with
    | nil => rfl
    | cons c rest =>
      -- What is left starts as the text without the blanks in front.
      obtain ⟨back, hback⟩ : trim s <+: trimStart s := by
        rw [trim, trimEnd, ← List.reverse_suffix, List.reverse_reverse]
        exact List.dropWhile_suffix _
      have hnot := List.head?_dropWhile_not isBlank s
      rw [← trimStart, ← hback, hs] at hnot
      exact List.dropWhile_cons_of_neg (by simpa using hnot)
  rw [trim, hstart, trim, trimEnd_trimEnd]

theorem trimmed_trimmed (s : String) : trimmed (trimmed s) = trimmed s := by
  rw [trimmed, toList_trimmed, trim_trim, ← trimmed]

theorem trimStart_append_blank {gap s : List Char} (h : ∀ c ∈ gap, isBlank c = true) :
    trimStart (gap ++ s) = trimStart s :=
  List.dropWhile_append_of_pos h

/-- The last character that trimming leaves is not blank. -/
theorem trimEnd_eq_nil_of_blank {s : List Char} (h : ∀ c ∈ trimEnd s, isBlank c = true) : trimEnd s = [] := by
  rw [trimEnd, List.reverse_eq_nil_iff]
  cases hs : s.reverse.dropWhile isBlank with
  | nil => rfl
  | cons c rest =>
    have hc : isBlank c = true := h c (by simp [trimEnd, hs])
    have hnot := List.head?_dropWhile_not isBlank s.reverse
    rw [hs] at hnot
    exact absurd hc (Bool.eq_false_iff.mp hnot)

theorem isBlankText_trimmed (s : String) : isBlankText (trimmed s) = isBlankText s := by
  rw [Bool.eq_iff_iff]
  constructor
  · intro h
    rw [isBlankText, toList_trimmed, List.all_eq_true] at h
    rw [← trimmed_eq_empty_iff, ← String.toList_inj, toList_trimmed]
    exact trimEnd_eq_nil_of_blank h
  · intro h
    rw [trimmed_eq_empty_iff.mpr h]
    rfl

end Text
end Logbook
