import Logbook.Proofs.Patch.Changes
import Logbook.Proofs.Store.Alike

/-! A patch of several settings against its changes, each patched by itself. The patch looks once at what it
    changed, and the changes look once each; no setting changes twice, so what is found again in between is found
    again at the end, and a setting that came back to its value cannot hide a change. Main statement: both end in
    the same store. -/

namespace Logbook

theorem HostColors.get?_foldl_insert_of_ne {items : List (Severity × Color)} {severity : Severity}
    (h : ∀ item ∈ items, item.1 ≠ severity) (t : HostColors) :
    (items.foldl (fun t c => t.insert c.1 c.2) t).get? severity = t.get? severity := by
  induction items generalizing t with
  | nil => rfl
  | cons item items ih =>
    rw [List.foldl_cons, ih fun x hx => h x (List.mem_cons_of_mem _ hx), get?_insert,
      if_neg (h item List.mem_cons_self).symm]

namespace Store
open Patch (ofList Checked)

variable {s t : Store} {c d : Configuration} {o : Occasion} {p : Patch} {x : Change}

/-- The store after these changes, each patched by itself. -/
def patchEach (s : Store) (changes : List Change) (o : Occasion) : Except Error Store :=
  changes.foldlM (fun s x => s.patch (ofList [x]) o) s

@[simp] theorem withPatched_config (template : Template) : (s.withPatched c template o).config = c := by
  unfold withPatched
  split <;> rfl

@[simp] theorem withPatched_template (template : Template) : (s.withPatched c template o).template = template := by
  unfold withPatched
  split <;> rfl

/-! ### Two patches in a row -/

theorem withPatched_withPatched (h : s.config.sameFile d = true → s.config.sameFile c = true)
    (template template' : Template) :
    (s.withPatched c template o).withPatched d template' o = s.withPatched d template' o := by
  cases hc : s.config.sameFile c
  · have hd : s.config.sameFile d = false := by
      cases hd : s.config.sameFile d with
      | false => rfl
      | true => rw [← hc, h hd]
    -- The path is found again at the first patch; the second may not need it, but then it is the same path.
    rw [withPatched_of_not_sameFile hc, withPatched_of_not_sameFile hd]
    cases hcd : c.sameFile d
    · exact withPatched_of_not_sameFile hcd _ _
    · rw [withPatched, if_pos hcd, pathOf_congr hcd]
  · have hfile : c.sameFile d = s.config.sameFile d := by
      obtain ⟨hname, hdate⟩ := sameFile_iff.mp hc
      rw [Configuration.sameFile, Configuration.sameFile, hname, hdate]
    have hfirst : s.withPatched c template o = { s with config := c, template := template } := by
      rw [withPatched, if_pos hc]
    rw [hfirst, withPatched, withPatched, hfile]

/-- If neither the template nor the file changes twice, the first of two configurations leaves no trace. -/
theorem patched_patched (htemplate : c.template = s.config.template ∨ d.template = c.template)
    (hfile : s.config.sameFile d = true → s.config.sameFile c = true) :
    (s.patched c o).patched d o = s.patched d o := by
  rw [patched, patched, withPatched_config, withPatched_template, withPatched_withPatched hfile, patched]
  rcases htemplate with h | h
  · rw [h, if_pos rfl]
  · rw [h, if_pos rfl]

theorem patch_empty (s : Store) (o : Occasion) : s.patch ∅ o = .ok s := by
  refine patch_eq_ok_iff.mpr ⟨s.config, rfl, ?_⟩
  rw [patched, withPatched, if_pos (sameFile_self _), if_pos rfl]

theorem patch_add (hx : p.Admits x) (h : (p.add x).Checked) (ht : s.patch p o = .ok t) :
    ∃ u, t.patch (ofList [x]) o = .ok u ∧ s.patch (p.add x) o = .ok u := by
  obtain ⟨c, hc, rfl⟩ := patch_eq_ok_iff.mp ht
  obtain ⟨d, hd⟩ := Patch.exists_apply (Patch.validate_eq_ok_iff.mpr (h.of_add hx).2) c
  obtain ⟨htemplate, hname, hdate⟩ := Patch.changed_once hx hc hd
  have hfile : s.config.sameFile d = true → s.config.sameFile c = true := by
    rw [sameFile_iff, sameFile_iff]
    rintro ⟨hname', hdate'⟩
    refine ⟨?_, ?_⟩
    · rcases hname with h | h
      · exact h.symm
      · exact hname'.trans h
    · rcases hdate with h | h
      · exact h.symm
      · exact hdate'.trans h
  refine ⟨s.patched d o, ?_, patch_eq_ok_iff.mpr ⟨d, Patch.apply_add hx h hc hd, rfl⟩⟩
  rw [patch_eq_ok_iff, patched, withPatched_config]
  exact ⟨d, hd, patched_patched htemplate hfile⟩

/-! ### A patch and its changes -/

/-- Changes in their turns, each patched by itself, do what they do together. -/
theorem patchEach_of_inTurn {xs : List Change} (hturn : p.InTurn xs) (h : (xs.foldl Patch.add p).Checked)
    (ht : s.patch p o = .ok t) :
    ∃ u, t.patchEach xs o = .ok u ∧ s.patch (xs.foldl Patch.add p) o = .ok u := by
  -- Along the list the patch made so far grows, and `t` is the store after it.
  induction xs generalizing p t with
  | nil => exact ⟨t, rfl, ht⟩
  | cons x xs ih =>
    obtain ⟨hx, hturn⟩ := hturn
    obtain ⟨u, hu, hpu⟩ := patch_add hx (Patch.checked_of_inTurn hturn h) ht
    obtain ⟨v, hv, hpv⟩ := ih hturn h hpu
    refine ⟨v, ?_, hpv⟩
    rw [patchEach, List.foldlM_cons, hu]
    exact hv

/-- What a patch does not name is left as it is. -/
structure Spares (p : Patch) (s t : Store) : Prop where
  threshold : p.threshold = none → t.config.threshold = s.config.threshold
  template : p.template = none → t.config.template = s.config.template ∧ t.template = s.template
  name : p.fileName = none → t.config.file.name = s.config.file.name
  includeDate : p.includeDate = default → t.config.file.includeDate = s.config.file.includeDate
  file : p.fileName = none → p.includeDate = default → t.path = s.path ∧ t.written = s.written
  overwrite : p.overwrite = default → t.config.file.overwrite = s.config.file.overwrite
  writeToHost : p.writeToHost = default → t.config.writeToHost = s.config.writeToHost
  fromScript : p.fromScript = default → t.config.file.fromScript = s.config.file.fromScript
  fromHost : p.fromHost = default → t.config.file.fromHost = s.config.file.fromHost
  hostColors : p.hostColors = none → ∀ severity, (∀ item ∈ p.textColors, item.1 ≠ severity) →
    t.config.hostColors.get? severity = s.config.hostColors.get? severity
  categories : p.categories = none → p.setCategories = [] → p.removeCategories = [] →
    t.config.categories = s.config.categories

theorem spares (h : s.patch p o = .ok t) : Spares p s t := by
  obtain ⟨c, hc, rfl⟩ := patch_eq_ok_iff.mp h
  have hconfig : (s.patched c o).config = c := withPatched_config _
  obtain ⟨-, table, htable, rfl⟩ := Patch.apply_eq_ok.mp hc
  have keeps {α : Type} {option : Option α} {before : α} (h : option = none) : option.getD before = before := by
    rw [h, Option.getD_none]
  have stays {switch : Switch} {before : Bool} (h : switch = default) : switch.apply before = before := by
    rw [h]
    rfl
  have hname : p.fileName = none → p.fileName.getD s.config.file.name = s.config.file.name := keeps
  have hdate : p.includeDate = default → p.includeDate.apply s.config.file.includeDate = s.config.file.includeDate :=
    stays
  have htemplate : p.template = none → p.template.getD s.config.template = s.config.template := keeps
  constructor
  case file =>
    intro h h'
    rw [patched, withPatched, if_pos (sameFile_iff.mpr ⟨(hname h).symm, (hdate h').symm⟩)]
    exact ⟨rfl, rfl⟩
  all_goals rw [hconfig]
  case threshold => exact keeps
  case template => exact fun h => ⟨htemplate h, by rw [patched, withPatched_template, if_pos (htemplate h)]⟩
  case name => exact hname
  case includeDate => exact hdate
  case overwrite => exact stays
  case writeToHost => exact stays
  case fromScript => exact stays
  case fromHost => exact stays
  case hostColors =>
    intro h severity hsingle
    rw [Patch.applyColors, h]
    exact HostColors.get?_foldl_insert_of_ne hsingle _
  case categories =>
    intro h hset hremoved
    rw [Patch.applyCategories, h, hset, hremoved] at htable
    exact (Except.ok.inj htable).symm

/-- A valid patch does to a store what its changes do, patched one after the other in the order in which they take
    effect, and spares what it does not name. It is made of no more than those changes, and it makes no difference how
    changes of different kinds were interleaved when it was built. -/
theorem patch_eq_patchEach (s : Store) (o : Occasion) (h : p.validate = .ok ()) :
    (∃ t, s.patch p o = .ok t ∧ s.patchEach p.changes o = .ok t ∧ Spares p s t) ∧ ofList p.changes = p ∧
      ∀ calls calls' : List Change, (∀ kind, calls.filter (·.kind = kind) = calls'.filter (·.kind = kind)) →
        ofList calls = ofList calls' := by
  have hp := Patch.validate_eq_ok_iff.mp h
  obtain ⟨hturn, hfold⟩ := Patch.leads_changes hp
  have hchecked : (p.changes.foldl Patch.add .empty).Checked := by
    rw [hfold]
    exact hp
  obtain ⟨t, heach, hpatch⟩ := patchEach_of_inTurn hturn hchecked (patch_empty s o)
  rw [hfold] at hpatch
  exact ⟨⟨t, hpatch, heach, spares hpatch⟩, hfold, fun _ _ => Patch.ofList_eq_of_filter⟩

theorem patch_eq_patchEach_mixed :
    let p := ofList [.removeCategory "Audit", .includeDate true, .setCategory " Audit" ⟨some .red, true⟩,
      .textColor .error .blue, .fileName "b.log", .setCategory "audit" ⟨none, false⟩, .template "\x7bMessage\x7d"]
    let s := initial ⟨⟨"/srv"⟩, ⟨0, 0, 0⟩⟩
    p.validate = .ok () ∧ ∃ t, s.patch p ⟨⟨"/srv"⟩, ⟨0, 0, 0⟩⟩ = .ok t ∧
      s.patchEach [.template "\x7bMessage\x7d", .fileName "b.log", .includeDate true, .textColor .error .blue,
        .setCategory " Audit" ⟨some .red, true⟩, .setCategory "audit" ⟨none, false⟩, .removeCategory "Audit"]
        ⟨⟨"/srv"⟩, ⟨0, 0, 0⟩⟩ = .ok t := by
  intro p s
  have hvalid : p.validate = .ok () := by decide
  obtain ⟨⟨t, hpatch, heach, -⟩, -⟩ := patch_eq_patchEach s ⟨⟨"/srv"⟩, ⟨0, 0, 0⟩⟩ hvalid
  exact ⟨hvalid, t, hpatch, heach⟩

end Store
end Logbook
