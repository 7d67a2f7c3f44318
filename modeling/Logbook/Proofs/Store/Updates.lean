import Logbook.Proofs.Patch
import Logbook.Store

/-! Changes of a store in place. All that can be wrong with a change is found before the first assignment. Main
    statements: what each change makes of a store, and that a change that fails leaves the store as it was. -/

namespace Logbook
namespace Store

/-- The store with the configuration that a patch made, and its template. -/
def withPatched (s : Store) (c : Configuration) (template : Template) (o : Occasion) : Store :=
  if s.config.sameFile c then { s with config := c, template := template }
  else Store.refresh { s with config := c, template := template } true o

/-- The store with the configuration that a patch made, and all that follows from it. -/
def patched (s : Store) (c : Configuration) (o : Occasion) : Store :=
  s.withPatched c (if c.template = s.config.template then s.template else Template.compile c.template) o

/-! ### Changes as a whole -/

namespace Update

/-- The answer to a change with result `r`, and the store it leaves behind, if it is made as a whole or not at all. -/
def whole (s : Store) (r : Except Error Store) : Except Error Unit × Store :=
  match r with
  | .ok t => (.ok (), t)
  | .error e => (.error e, s)

/-- The change is made as a whole or not at all, whatever store it is made to. -/
def Atomic (u : Update) : Prop :=
  ∀ s, u.run s = whole s (u.result s)

section
variable {u : Update} {s : Store}

theorem result_of_run {r : Except Error Store} (h : u.run s = whole s r) : u.result s = r := by
  rw [result, h]
  cases r <;> rfl

theorem atomic_of_run {r : Store → Except Error Store} (h : ∀ s, u.run s = whole s (r s)) : u.Atomic := by
  intro s
  rw [result_of_run (h s), h s]

theorem Atomic.of_error (hu : u.Atomic) {e : Error} (h : (u.run s).1 = .error e) : (u.run s).2 = s := by
  rw [hu s] at h ⊢
  cases hresult : u.result s with
  | error e => rfl
  | ok t =>
    rw [hresult] at h
    cases h

end

/-! ### What each change does -/

theorem run_replace (c : Configuration) (o : Occasion) (s : Store) :
    (Update.replace c o).run s = whole s (c.validate.map fun _ => s.adopt c o) := by
  unfold Update.replace
  cases c.validate <;> rfl

theorem run_load (json : String) (o : Occasion) (s : Store) : (Update.load json o).run s =
    whole s ((Configuration.ofJson? json).bind fun c => c.validate.map fun _ => s.adopt c o) := by
  unfold Update.load
  cases Configuration.ofJson? json with
  | error e => rfl
  | ok c => exact run_replace c o s

/-- Once the copy is made, nothing can fail. -/
theorem run_putCopy (c : Configuration) (o : Occasion) (s : Store) :
    (putCopy c o).run s = (.ok (), s.patched c o) := by
  have hrun : (putCopy c o).run s = Update.run (do
      if c.template ≠ s.config.template then modify fun s => { s with template := Template.compile c.template }
      modify fun s => { s with config := c }
      if !s.config.sameFile c then modify fun s => s.refresh true o) s := rfl
  rw [hrun, patched, withPatched]
  by_cases htemplate : c.template = s.config.template
  · rw [if_neg (not_not_intro htemplate), if_pos htemplate]
    cases s.config.sameFile c <;> rfl
  · rw [if_pos htemplate, if_neg htemplate]
    cases s.config.sameFile c <;> rfl

theorem run_patch (p : Patch) (o : Occasion) (s : Store) :
    (Update.patch p o).run s = whole s ((p.apply s.config).map fun c => s.patched c o) := by
  cases hvalid : p.validate with
  | error e =>
    rw [Patch.apply_of_error hvalid, Update.patch, hvalid]
    rfl
  | ok _ =>
    have hrun : (Update.patch p o).run s = Update.run (do putCopy (← p.apply s.config) o) s := by
      rw [Update.patch, hvalid]
      rfl
    rw [hrun]
    cases p.apply s.config with
    | error e => rfl
    | ok c => exact run_putCopy c o s

theorem atomic_replace (c : Configuration) (o : Occasion) : Atomic (.replace c o) :=
  atomic_of_run (run_replace c o)

theorem atomic_load (json : String) (o : Occasion) : Atomic (.load json o) :=
  atomic_of_run (run_load json o)

theorem atomic_patch (p : Patch) (o : Occasion) : Atomic (.patch p o) :=
  atomic_of_run (run_patch p o)

end Update

/-! ### What comes of each change -/

theorem replace_eq_map (s : Store) (c : Configuration) (o : Occasion) :
    s.replace c o = c.validate.map fun _ => s.adopt c o :=
  Update.result_of_run (Update.run_replace c o s)

theorem load_eq_bind (s : Store) (json : String) (o : Occasion) :
    s.load json o = (Configuration.ofJson? json).bind fun c => s.replace c o := by
  simp only [replace_eq_map]
  exact Update.result_of_run (Update.run_load json o s)

theorem patch_eq_map (s : Store) (p : Patch) (o : Occasion) :
    s.patch p o = (p.apply s.config).map fun c => s.patched c o :=
  Update.result_of_run (Update.run_patch p o s)

theorem patch_eq_ok_iff {s t : Store} {p : Patch} {o : Occasion} :
    s.patch p o = .ok t ↔ ∃ c, p.apply s.config = .ok c ∧ s.patched c o = t := by
  rw [patch_eq_map, map_eq_ok]

end Store
end Logbook
