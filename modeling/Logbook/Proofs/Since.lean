import Mathlib.Data.List.Basic

/-! What has happened since something else happened last. -/

namespace Logbook

/-- Something with `P` is in the list, and nothing with `Q` comes after it. -/
def Since {α : Type} (P Q : α → Prop) (l : List α) : Prop :=
  ∃ past x later, l = past ++ x :: later ∧ P x ∧ ∀ y ∈ later, ¬Q y

variable {α : Type} {P Q : α → Prop}

theorem not_since_nil : ¬Since P Q [] := by
  rintro ⟨past, x, later, h, -⟩
  simp at h

theorem since_concat {l : List α} {x : α} : Since P Q (l ++ [x]) ↔ P x ∨ ¬Q x ∧ Since P Q l := by
  constructor
  · rintro ⟨past, y, later, h, hy, hlater⟩
    rcases List.eq_nil_or_concat later with rfl | ⟨later, z, rfl⟩
    · obtain ⟨-, hx⟩ := List.append_inj' h rfl
      obtain rfl := List.singleton_inj.mp hx
      exact Or.inl hy
    · rw [List.concat_eq_append, ← List.cons_append, ← List.append_assoc] at h
      obtain ⟨hl, hx⟩ := List.append_inj' h rfl
      obtain rfl := List.singleton_inj.mp hx
      have hlater' : ∀ z ∈ later, ¬Q z := fun z hz => hlater z (by simp [hz])
      exact Or.inr ⟨hlater x (by simp), past, y, later, hl, hy, hlater'⟩
  · rintro (h | ⟨hx, past, y, later, rfl, hy, hlater⟩)
    · exact ⟨l, x, [], rfl, h, by simp⟩
    · refine ⟨past, y, later ++ [x], by simp, hy, fun z hz => ?_⟩
      rcases List.mem_append.mp hz with hz | hz
      · exact hlater z hz
      · rw [List.mem_singleton.mp hz]
        exact hx

end Logbook
