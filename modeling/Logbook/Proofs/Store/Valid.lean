import Mathlib.Data.List.Induction
import Logbook.Proofs.Patch
import Logbook.Proofs.Store.History

/-! The configuration in force is always valid. Whatever a patch asks for is checked before it is applied, and what it
    then does to the tables keeps them valid; every other configuration is checked as a whole before it is put in
    force. Main statement: so it is after every history, and a patch leaves the last default that it sets. -/

namespace Logbook
namespace Store

/-! ### What a step keeps -/

theorem validate_entry {s : Store} (hs : s.config.validate = .ok ()) (o : Occasion) (r : Request) :
    (s.entry o r).after.config.validate = .ok () := by
  rcases entry_cases s o r with ⟨e, h⟩ | ⟨p, c, template, -, happly, -, h⟩ | ⟨c, hvalid, -, h⟩ | ⟨-, h⟩
  · rw [h]
    exact hs
  · have hc := Patch.validate_apply hs happly
    rw [h]
    split <;> exact hc
  · rw [h]
    exact hvalid
  · rw [h]
    simpa using hs

theorem apply_of_succeeds {s : Store} {o : Occasion} {p : Patch} (h : (s.entry o (.patch p)).Succeeds) :
    p.apply s.config = .ok (s.entry o (.patch p)).after.config := by
  obtain ⟨grant, hgrant⟩ := h
  cases hp : s.patch p o with
  | error e =>
    have hentry : s.entry o (.patch p) = ⟨o, .patch p, s, .error e, s⟩ := entry_of_error (congrArg (Except.map _) hp)
    rw [hentry] at hgrant
    cases hgrant
  | ok t =>
    have hentry : s.entry o (.patch p) = ⟨o, .patch p, s, .ok none, t⟩ := entry_of_ok (congrArg (Except.map _) hp)
    rw [hentry]
    exact apply_of_patch hp

/-! ### Reachable stores -/

theorem validate_run (first : Occasion) (past : List (Occasion × Request)) :
    ((initial first).run past).config.validate = .ok () := by
  induction past using List.reverseRecOn with
  | nil => exact Configuration.validate_default
  | append_singleton past x ih =>
    obtain ⟨o, r⟩ := x
    rw [run_append]
    exact validate_entry ih o r

/-- In every history the configuration in force is valid: at most one category is the default, no name of a category
    is blank, and `off` has no color. After a patch that is met, the default is the last category that the patch sets
    as the default, under its trimmed name, unless a category of the same name is set later or removed; removals come
    after all that is set. -/
theorem valid_run (first : Occasion) (past : List (Occasion × Request)) :
    let s := (initial first).run past
    s.config.validate = .ok () ∧
    (∀ a ∈ s.config.categories.entries, ∀ b ∈ s.config.categories.entries,
      a.2.isDefault = true → b.2.isDefault = true → a = b) ∧
    (∀ a ∈ s.config.categories.entries, Text.trimmed a.1 ≠ "") ∧
    s.config.hostColors.get? .off = none ∧
    ∀ o p earlier name category later, (s.entry o (.patch p)).Succeeds →
      p.setCategories = earlier ++ (name, category) :: later → category.isDefault = true →
      (∀ item ∈ later, item.2.isDefault = false ∧ ¬CategoryTable.SameName name item.1) →
      (∀ removed ∈ p.removeCategories, ¬CategoryTable.SameName name removed) →
      (s.entry o (.patch p)).after.config.categories.default? = some (Text.trimmed name) := by
  intro s
  have hvalid : s.config.validate = .ok () := validate_run first past
  obtain ⟨hcolors, hcategories⟩ := Configuration.validate_eq_ok_iff.mp hvalid
  refine ⟨hvalid, hcategories.single, fun a ha => ?_, hcolors, ?_⟩
  · rw [ne_eq, Text.trimmed_eq_empty_iff, hcategories.named a ha]
    exact Bool.false_ne_true
  · intro o p earlier name category later hmet hset hdefault hlater hremoved
    exact Patch.default?_apply hvalid (apply_of_succeeds hmet) hset hdefault hlater hremoved

/-- A patch replaces the table, which has a default, sets two others as the default one after the other, and removes
    the first of them; the second is the default. -/
theorem valid_run_two_defaults :
    let o : Occasion := ⟨⟨"/srv"⟩, ⟨0, 0, 0⟩⟩
    let p : Patch := Patch.ofList [.setCategory "Audit" ⟨some .blue, true⟩, .removeCategory "AUDIT",
      .setCategory " Trace " ⟨none, true⟩, .categories (.ofList [("trace", ⟨none, true⟩), ("Note", ⟨none, false⟩)]),
      .setCategory "note" ⟨some .red, false⟩]
    (((initial o).run []).entry o (.patch p)).after.config.categories.default? = some "Trace" := by
  intro o p
  have hmet : (((initial o).run []).entry o (.patch p)).Succeeds := ⟨none, rfl⟩
  have hlater : ∀ item ∈ [("note", (⟨some .red, false⟩ : Category))],
      item.2.isDefault = false ∧ ¬CategoryTable.SameName " Trace " item.1 := by decide
  have hremoved : ∀ removed ∈ p.removeCategories, ¬CategoryTable.SameName " Trace " removed := by decide
  have htrimmed : Text.trimmed " Trace " = "Trace" := by decide
  rw [← htrimmed]
  exact (valid_run o []).2.2.2.2 o p [("Audit", ⟨some .blue, true⟩)] " Trace " ⟨none, true⟩
    [("note", ⟨some .red, false⟩)] hmet rfl rfl hlater hremoved

end Store
end Logbook
