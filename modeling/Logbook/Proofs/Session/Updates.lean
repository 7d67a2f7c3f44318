import Logbook.Proofs.Patch
import Logbook.Proofs.Store.History
import Logbook.Session

/-! Changes of the configuration as a session makes them: by a patch, by another configuration, or by one that is read
    from a file. Main statement: a patch is answered as its check is, a configuration as its own check is, and a change
    that fails leaves everything as it was. -/

namespace Logbook

namespace Store
variable (s : Store) (o : Occasion)

/-- A store is patched exactly if the patch is valid, whatever is in force; otherwise the error is that of the
    check. -/
theorem map_patch (p : Patch) : ((s.patch p o).map fun _ => ()) = p.validate := by
  rw [patch_eq_map]
  cases hvalid : p.validate with
  | error e => rw [Patch.apply_of_error hvalid]; rfl
  | ok _ =>
    obtain ⟨c, hc⟩ := Patch.exists_apply hvalid s.config
    rw [hc]
    rfl

theorem map_replace (c : Configuration) : ((s.replace c o).map fun _ => ()) = c.validate := by
  rw [replace_eq_map]
  cases c.validate <;> rfl

end Store

/-- The action changes the configuration and may be refused. -/
def Action.isUpdate : Action → Bool
  | .patch _ | .replace _ | .load _ => true
  | _ => false

namespace Session
variable {s : Session}

theorem change_fst (s : Session) {u : Store.Update} (hu : u.Atomic) :
    (s.change u).1 = (u.result s.store).map fun _ => () := by
  rw [change, hu s.store]
  cases u.result s.store <;> rfl

theorem change_of_error {u : Store.Update} (hu : u.Atomic) {e : Error} (h : (s.change u).1 = .error e) :
    (s.change u).2 = s := by
  have hstore : (u.run s.store).2 = s.store := hu.of_error h
  show { s with store := (u.run s.store).2 } = s
  rw [hstore]

theorem change_of_ok {u : Store.Update} (hu : u.Atomic) (h : (s.change u).1 = .ok ()) :
    u.result s.store = .ok (s.change u).2.store := by
  rw [change, hu s.store] at h ⊢
  cases hresult : u.result s.store with
  | error e =>
    rw [hresult] at h
    cases h
  | ok t => rfl

theorem load_of_error {path : Path} {e : Error} (h : (s.load path).1 = .error e) : (s.load path).2 = s := by
  unfold load at h ⊢
  split at h
  · rfl
  · exact change_of_error (Store.Update.atomic_load _ _) h

theorem change_patch_fst (s : Session) (p : Patch) : (s.change (.patch p s.occasion)).1 = p.validate := by
  rw [← s.store.map_patch s.occasion p]
  exact s.change_fst (Store.Update.atomic_patch p s.occasion)

theorem change_replace_fst (s : Session) (c : Configuration) : (s.change (.replace c s.occasion)).1 = c.validate := by
  rw [← s.store.map_replace s.occasion c]
  exact s.change_fst (Store.Update.atomic_replace c s.occasion)

theorem step_of_error {a : Action} (hupdate : a.isUpdate = true) {e : Error} (h : (s.step a).1 = .done (.error e)) :
    (s.step a).2 = s := by
  cases a with
  | patch p => exact change_of_error (Store.Update.atomic_patch p s.occasion) (Reply.done.inj h)
  | replace c => exact change_of_error (Store.Update.atomic_replace c s.occasion) (Reply.done.inj h)
  | load path => exact load_of_error (Reply.done.inj h)
  | _ => cases hupdate

/-- Changes of the configuration are made as a whole or not at all. A patch is answered as its check is and, if that
    finds nothing, all of it is applied; another configuration is answered as its own check is and, if that finds
    nothing, is in force; and a change that is answered with an error, also one that is read from a file, leaves the
    whole session as it was. -/
theorem update_all_or_nothing (s : Session) :
    (∀ p, (s.step (.patch p)).1 = .done p.validate ∧
      (p.validate = .ok () → p.apply s.store.config = .ok (s.step (.patch p)).2.store.config)) ∧
    (∀ c, (s.step (.replace c)).1 = .done c.validate ∧
      (c.validate = .ok () → (s.step (.replace c)).2.store.config = c)) ∧
    ∀ a e, a.isUpdate = true → (s.step a).1 = .done (.error e) → (s.step a).2 = s := by
  refine ⟨fun p => ⟨congrArg Reply.done (s.change_patch_fst p), fun hvalid => ?_⟩,
    fun c => ⟨congrArg Reply.done (s.change_replace_fst c), fun hvalid => ?_⟩,
    fun a e hupdate h => step_of_error hupdate h⟩
  · have hmet : (s.change (.patch p s.occasion)).1 = .ok () := by rw [change_patch_fst, hvalid]
    exact Store.apply_of_patch (change_of_ok (Store.Update.atomic_patch p s.occasion) hmet)
  · have hmet : (s.change (.replace c s.occasion)).1 = .ok () := by rw [change_replace_fst, hvalid]
    have hstore := (Store.replace_eq_ok (change_of_ok (Store.Update.atomic_replace c s.occasion) hmet)).2
    show (s.change (.replace c s.occasion)).2.store.config = c
    rw [hstore, Store.adopt_config]

end Session
end Logbook
