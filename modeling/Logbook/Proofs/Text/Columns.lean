import Mathlib.Data.List.Lex
import Logbook.Text.Digits

/-! Numbers of a least width in text. As long as a number has no more digits than the width, its text has the width, and
    the texts sort as the numbers do; so do rows of such numbers, because all texts of one column end at one place. Main
    statements: a row sorts as its numbers do, from left to right, and tells them. -/

namespace Logbook
namespace Text

/-! ### Padded numbers -/

theorem isDigit_of_mem_padded {width n : Nat} {c : Char} (h : c ∈ padded width n) : c.isDigit = true := by
  rcases List.mem_append.mp h with h | h
  · rw [(List.mem_replicate.mp h).2]
    rfl
  · exact Nat.isDigit_of_mem_toDigits (by decide) (by decide) h

theorem sign_ne_padded {c : Char} (h : c.isDigit = false) {width n : Nat} {s : List Char} :
    c :: s ≠ padded width n := by
  intro he
  have hc := isDigit_of_mem_padded (he ▸ List.mem_cons_self)
  rw [h] at hc
  cases hc

theorem ofDigitChars_padded (width n : Nat) : Nat.ofDigitChars 10 (padded width n) 0 = n := by
  rw [padded, digits, Nat.ofDigitChars_append, Nat.ofDigitChars_replicate_zero, Nat.mul_zero,
    Nat.ofDigitChars_ten_toDigits]

theorem padded_inj {width m n : Nat} (h : padded width m = padded width n) : m = n := by
  rw [← ofDigitChars_padded width m, h, ofDigitChars_padded]

theorem length_padded {width n : Nat} (hwidth : 0 < width) (h : n < Nat.pow 10 width) :
    (padded width n).length = width := by
  have hd : (Nat.toDigits 10 n).length ≤ width := (Nat.length_toDigits_le_iff (by decide) hwidth).mpr h
  rw [padded, List.length_append, List.length_replicate, digits]
  omega

theorem length_padded_two {n : Nat} (h : n < 100) : (padded 2 n).length = 2 :=
  length_padded (by decide) h

/-- A padded integer tells the integer, whatever its sign and its length. -/
theorem paddedInt_inj {width : Nat} {y z : Int} (h : paddedInt width y = paddedInt width z) : y = z := by
  unfold paddedInt at h
  split at h <;> split at h
  · have := padded_inj (List.cons.inj h).2
    omega
  · exact absurd h (sign_ne_padded (by decide))
  · exact absurd h.symm (sign_ne_padded (by decide))
  · have := padded_inj h
    omega

/-! ### Padded numbers in order -/

theorem digitChar_lt {m n : Nat} (hn : n < 10) (h : m < n) : Nat.digitChar m < Nat.digitChar n := by
  have hall : ∀ n < 10, ∀ m < n, Nat.digitChar m < Nat.digitChar n := by decide
  exact hall n hn m h

/-- The last digit of a padded number stands after the padded number of the others. -/
theorem padded_succ {width : Nat} (hwidth : 0 < width) (n : Nat) :
    padded (width + 1) n = padded width (n / 10) ++ [Nat.digitChar (n % 10)] := by
  by_cases hn : n < 10
  · obtain ⟨k, rfl⟩ := Nat.exists_eq_add_one.mpr hwidth
    have hzeros : padded (k + 1) 0 = List.replicate (k + 1) '0' := by
      rw [padded, digits, Nat.toDigits_zero, List.replicate_succ']
      rfl
    rw [Nat.div_eq_of_lt hn, Nat.mod_eq_of_lt hn, hzeros, padded, digits, Nat.toDigits_of_lt_base hn]
    rfl
  · have hten : 10 ≤ n := by omega
    rw [padded, digits, Nat.toDigits_of_base_le (by decide) hten, List.length_append, List.length_singleton,
      Nat.add_sub_add_right, ← List.append_assoc]
    rfl

/-- The first digits of a padded number are the padded number without the digits behind them. -/
theorem take_padded {width : Nat} (hwidth : 0 < width) (more : Nat) {n : Nat} (h : n < Nat.pow 10 (width + more)) :
    (padded (width + more) n).take width = padded width (n / Nat.pow 10 more) := by
  induction more generalizing n with
  | zero =>
    have hone : n / Nat.pow 10 0 = n := Nat.div_one n
    rw [hone, Nat.add_zero, List.take_of_length_le (length_padded hwidth h).le]
  | succ more ih =>
    have hdiv : n / 10 < Nat.pow 10 (width + more) := Nat.div_lt_of_lt_mul (by rw [Nat.mul_comm]; exact h)
    have hten : n / 10 / Nat.pow 10 more = n / Nat.pow 10 (more + 1) := by
      rw [Nat.div_div_eq_div_mul, Nat.mul_comm]
      rfl
    have hlong : width ≤ (padded (width + more) (n / 10)).length :=
      (Nat.le_add_right _ _).trans (width_le_length_padded _ _)
    rw [← Nat.add_assoc, padded_succ (by omega), List.take_append_of_le_length hlong, ih hdiv, hten]

theorem lt_append_of_lt {xs ys : List Char} (hlength : xs.length = ys.length) (h : xs < ys) (s t : List Char) :
    xs ++ s < ys ++ t := by
  induction xs generalizing ys with
  | nil =>
    obtain rfl := List.eq_nil_of_length_eq_zero hlength.symm
    exact absurd h (List.lt_irrefl _)
  | cons x xs ih =>
    cases ys with
    | nil => cases hlength
    | cons y ys =>
      rw [List.cons_append, List.cons_append, List.cons_lt_cons_iff]
      rcases List.cons_lt_cons_iff.mp h with hlt | ⟨heq, hlt⟩
      · exact .inl hlt
      · exact .inr ⟨heq, ih (Nat.succ.inj hlength) hlt⟩

theorem padded_lt {width m n : Nat} (hwidth : 0 < width) (hn : n < Nat.pow 10 width) (h : m < n) :
    padded width m < padded width n := by
  induction width, hwidth using Nat.le_induction generalizing m n with
  | base =>
    have hone : ∀ k < 10, padded 1 k = [Nat.digitChar k] := by decide
    rw [hone m (h.trans hn), hone n hn, List.cons_lt_cons_iff]
    exact .inl (digitChar_lt hn h)
  | succ width hwidth ih =>
    -- The digits in front decide, unless they are the same; then the last digit does.
    have hdiv : n / 10 < Nat.pow 10 width := Nat.div_lt_of_lt_mul (by rw [Nat.mul_comm]; exact hn)
    rw [padded_succ hwidth, padded_succ hwidth]
    rcases Nat.lt_or_eq_of_le (Nat.div_le_div_right (c := 10) h.le) with hlt | heq
    · have hlength := (length_padded hwidth (hlt.trans hdiv)).trans (length_padded hwidth hdiv).symm
      exact lt_append_of_lt hlength (ih hdiv hlt) _ _
    · rw [heq]
      apply List.append_left_lt
      rw [List.cons_lt_cons_iff]
      exact .inl (digitChar_lt (Nat.mod_lt n (by decide)) (by omega))

/-! ### Rows -/

/-- A column of a row of numbers: the text in front of the number, and its width. -/
structure Column where
  gap : List Char
  width : Nat
  wide : 0 < width := by decide

/-- The number has no more digits than the column is wide. -/
def Column.Holds (column : Column) (n : Nat) : Prop :=
  n < Nat.pow 10 column.width

def row : List Column → List Nat → List Char
  | column :: columns, n :: ns => column.gap ++ padded column.width n ++ row columns ns
  | _, _ => []

section
variable {columns : List Column} {xs ys : List Nat}

theorem length_row (hx : List.Forall₂ Column.Holds columns xs) (hy : List.Forall₂ Column.Holds columns ys) :
    (row columns xs).length = (row columns ys).length := by
  induction hx generalizing ys with
  | nil => cases hy; rfl
  | cons hm _ ih =>
    obtain _ | ⟨hn, hy⟩ := hy
    simp only [row, List.length_append, length_padded (Column.wide _) hm, length_padded (Column.wide _) hn, ih hy]

theorem row_lt_row (hx : List.Forall₂ Column.Holds columns xs) (hy : List.Forall₂ Column.Holds columns ys)
    (h : xs < ys) : row columns xs < row columns ys := by
  induction hx generalizing ys with
  | nil =>
    cases hy
    exact absurd h (List.lt_irrefl _)
  | @cons column m columns xs hm _ ih =>
    obtain _ | ⟨hn, hy⟩ := hy
    rw [row, row, List.append_assoc, List.append_assoc]
    apply List.append_left_lt
    rcases List.cons_lt_cons_iff.mp h with hlt | ⟨rfl, hlt⟩
    · have hlength := (length_padded column.wide hm).trans (length_padded column.wide hn).symm
      exact lt_append_of_lt hlength (padded_lt column.wide hn hlt) _ _
    · exact List.append_left_lt (ih hy hlt)

theorem row_inj (hx : List.Forall₂ Column.Holds columns xs) (hy : List.Forall₂ Column.Holds columns ys)
    (h : row columns xs = row columns ys) : xs = ys := by
  rcases lt_trichotomy xs ys with hlt | heq | hlt
  · have hrow := row_lt_row hx hy hlt
    rw [h] at hrow
    exact absurd hrow (List.lt_irrefl _)
  · exact heq
  · have hrow := row_lt_row hy hx hlt
    rw [h] at hrow
    exact absurd hrow (List.lt_irrefl _)

end
end Text
end Logbook
