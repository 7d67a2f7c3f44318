import Mathlib.Data.List.Induction
import Logbook.Proofs.LogPath
import Logbook.Proofs.Store.History

/-! What a store derives from its configuration is never stale. A request finds template and path again only where it
    has reason to; that is enough, because all else leaves the text of the template and the settings of the file
    alone. Main statement: in every history the template is that of the configuration, the path is the one of some
    day on which the clock was read, and a claim is granted the path of the very day. -/

namespace Logbook
namespace Store

/-- The clock was read: the path was found again, and there is a file. -/
def Entry.ReadsClock (e : Entry) : Prop :=
  e.FindsPath ∧ e.after.config.file.isEnabled = true

/-- The clock was read on this occasion, when the store was made or for an entry of its history. -/
def ReadOn (first : Occasion) (entries : List Entry) (o : Occasion) : Prop :=
  o = first ∨ ∃ e ∈ entries, e.ReadsClock ∧ e.occasion = o

/-- Template and path follow from the configuration. -/
structure UpToDate (first : Occasion) (entries : List Entry) (s : Store) : Prop where
  template : s.template = Template.compile s.config.template
  unnamed : s.config.file.isEnabled = false → s.path = default
  named : s.config.file.isEnabled = true → ∃ o, ReadOn first entries o ∧ s.path = pathOf s.config o

theorem isEnabled_eq (f : FileSettings) : f.isEnabled = !Text.isBlankText f.name := rfl

theorem pathOf_of_not_isEnabled {c : Configuration} (h : c.file.isEnabled = false) (o : Occasion) :
    pathOf c o = default :=
  logPath_of_blank (by simpa [isEnabled_eq] using h) _ _ _

theorem isEnabled_congr {c d : Configuration} (h : c.sameFile d = true) : d.file.isEnabled = c.file.isEnabled := by
  rw [isEnabled_eq, isEnabled_eq, (sameFile_iff.mp h).1]

/-! ### What a step keeps -/

namespace UpToDate
variable {first : Occasion} {entries : List Entry} {s : Store}

theorem of_found {e : Entry} (htemplate : e.after.template = Template.compile e.after.config.template)
    (hfinds : e.FindsPath) (hpath : e.after.path = pathOf e.after.config e.occasion) :
    UpToDate first (entries ++ [e]) e.after where
  template := htemplate
  unnamed h := hpath.trans (pathOf_of_not_isEnabled h _)
  named h := ⟨e.occasion, Or.inr ⟨e, by simp, ⟨hfinds, h⟩, rfl⟩, hpath⟩

theorem of_kept (hs : UpToDate first entries s) {e : Entry}
    (htemplate : e.after.template = Template.compile e.after.config.template)
    (hfile : s.config.sameFile e.after.config = true) (hpath : e.after.path = s.path) :
    UpToDate first (entries ++ [e]) e.after where
  template := htemplate
  unnamed h := hpath.trans (hs.unnamed (isEnabled_congr hfile ▸ h))
  named h := by
    obtain ⟨o, ho, hp⟩ := hs.named (isEnabled_congr hfile ▸ h)
    refine ⟨o, ?_, by rw [hpath, hp, pathOf_congr hfile]⟩
    rcases ho with rfl | ⟨x, hx, hread, rfl⟩
    · exact Or.inl rfl
    · exact Or.inr ⟨x, List.mem_append_left _ hx, hread, rfl⟩

theorem step (hs : UpToDate first entries s) (o : Occasion) (r : Request) :
    UpToDate first (entries ++ [s.entry o r]) (s.entry o r).after := by
  rcases entry_cases s o r with ⟨e, h⟩ | ⟨p, c, template, rfl, -, htemplate, h⟩ | ⟨c, -, hfinds, h⟩ | ⟨rfl, h⟩
  · exact hs.of_kept (by rw [h]; exact hs.template) (by rw [h]; exact sameFile_self _) (by rw [h])
  · -- A patch compiles the template again only if its text changes.
    have hcompiled : template = Template.compile c.template := by
      rw [htemplate]
      split
      · next heq => rw [hs.template, heq]
      · rfl
    cases hc : s.config.sameFile c
    · rw [hc] at h
      refine of_found (by rw [h]; exact hcompiled) ?_ (by rw [h]; rfl)
      rw [h]
      exact ⟨⟨none, rfl⟩, by simp [Entry.SameFile, hc]⟩
    · rw [hc] at h
      exact hs.of_kept (by rw [h]; exact hcompiled) (by rw [h]; exact hc) (by rw [h]; rfl)
  · exact of_found (by rw [h]; rfl) hfinds (by rw [h]; rfl)
  · have hcompiled : (s.entry o .claim).after.template =
        Template.compile (s.entry o .claim).after.config.template := by
      simp [h, hs.template]
    have hpath : (s.entry o .claim).after.path = if s.config.file.includeDate then pathOf s.config o else s.path := by
      rw [h, ← renew_path]
      exact claim_path s o
    cases hdate : s.config.file.includeDate
    · rw [hdate, if_neg Bool.false_ne_true] at hpath
      exact hs.of_kept hcompiled (by simp [h]) hpath
    · rw [hdate, if_pos rfl] at hpath
      exact of_found hcompiled (by rw [h]; exact ⟨⟨_, rfl⟩, hdate⟩) (by simpa [h] using hpath)

end UpToDate

/-! ### Reachable stores -/

theorem upToDate_initial (first : Occasion) : UpToDate first [] (initial first) where
  template := rfl
  unnamed h := by
    have hfile : (default : Configuration).file.isEnabled = true := by decide
    rw [initial, refresh_config, hfile] at h
    cases h
  named _ := ⟨first, Or.inl rfl, by simp [initial]⟩

theorem upToDate_run (first : Occasion) (past : List (Occasion × Request)) :
    UpToDate first ((initial first).history past) ((initial first).run past) := by
  induction past using List.reverseRecOn with
  | nil => exact upToDate_initial first
  | append_singleton past x ih =>
    obtain ⟨o, r⟩ := x
    rw [run_append, history_append]
    exact ih.step o r

namespace Reachable
variable {s : Store}

theorem template (h : s.Reachable) : s.template = Template.compile s.config.template := by
  obtain ⟨first, past, rfl⟩ := h
  exact (upToDate_run first past).template

theorem path_isEmpty (h : s.Reachable) : s.path.isEmpty = !s.config.file.isEnabled := by
  obtain ⟨first, past, rfl⟩ := h
  have hs := upToDate_run first past
  cases hfile : ((initial first).run past).config.file.isEnabled
  · rw [hs.unnamed hfile]
    rfl
  · obtain ⟨o, -, hpath⟩ := hs.named hfile
    rw [hpath, pathOf, logPath_isEmpty]
    simpa [isEnabled_eq] using hfile

theorem renew_path_isEmpty (h : s.Reachable) (o : Occasion) : (s.renew o).path.isEmpty = !s.config.file.isEnabled := by
  rw [renew_path]
  split
  · rw [pathOf, logPath_isEmpty, isEnabled_eq, Bool.not_not]
  · exact h.path_isEmpty

theorem claim_isSome (h : s.Reachable) (o : Occasion) : (s.claim o).1.isSome = s.config.file.isEnabled := by
  have hempty := h.renew_path_isEmpty o
  cases hfile : s.config.file.isEnabled
  · rw [hfile] at hempty
    rw [claim_of_isEmpty hempty]
    rfl
  · rw [hfile] at hempty
    rw [claim_of_not_isEmpty hempty]
    rfl

theorem claim_of_not_isEnabled (h : s.Reachable) (hfile : s.config.file.isEnabled = false) (o : Occasion) :
    s.claim o = (none, s) := by
  have hempty : (s.renew o).path.isEmpty = true := by rw [h.renew_path_isEmpty, hfile, Bool.not_false]
  have hpath : s.path = default := by
    obtain ⟨first, past, rfl⟩ := h
    exact (upToDate_run first past).unnamed hfile
  rw [claim_of_isEmpty hempty, renew]
  split
  · rw [refresh, pathOf_of_not_isEnabled hfile, ← hpath]
    simp
  · rfl

end Reachable

/-- A store that some history leads to while files lie under one directory. -/
def ReachableUnder (base : Path) (s : Store) : Prop :=
  ∃ first past, s = (initial ⟨base, first⟩).run (under base past)

theorem occasion_of_mem_history : ∀ {s : Store} {past : List (Occasion × Request)} {e : Entry},
    e ∈ s.history past → e.occasion ∈ past.map (·.1)
  | _, [], _, h => by cases h
  | s, (o, r) :: past, e, h => by
    rcases List.mem_cons.mp h with rfl | h
    · exact List.mem_cons_self
    · exact List.mem_cons_of_mem _ (occasion_of_mem_history h)

theorem base_of_mem_history_under {base : Path} {s : Store} {past : List (Instant × Request)} {e : Entry}
    (h : e ∈ s.history (under base past)) : e.occasion.base = base := by
  obtain ⟨x, hx, hoccasion⟩ := List.mem_map.mp (occasion_of_mem_history h)
  obtain ⟨y, -, rfl⟩ := List.mem_map.mp hx
  rw [← hoccasion]

namespace ReachableUnder
variable {base : Path} {s : Store}

theorem reachable (h : ReachableUnder base s) : s.Reachable := by
  obtain ⟨first, past, rfl⟩ := h
  exact ⟨⟨base, first⟩, under base past, rfl⟩

theorem step (h : ReachableUnder base s) {o : Occasion} (ho : o.base = base) (r : Request) :
    ReachableUnder base (s.step o r).2 := by
  obtain ⟨first, past, rfl⟩ := h
  obtain ⟨base', now⟩ := o
  obtain rfl : base' = base := ho
  exact ⟨first, past ++ [(now, r)], by simp [under, run_append, run]⟩

theorem path (h : ReachableUnder base s) :
    ∃ day, s.path = logPath s.config.file.name s.config.file.includeDate base day := by
  obtain ⟨first, past, rfl⟩ := h
  have hs := upToDate_run ⟨base, first⟩ (under base past)
  cases hfile : ((initial ⟨base, first⟩).run (under base past)).config.file.isEnabled
  · exact ⟨first.date, by rw [hs.unnamed hfile]; exact (pathOf_of_not_isEnabled hfile ⟨base, first⟩).symm⟩
  · obtain ⟨o, ho, hpath⟩ := hs.named hfile
    have hbase : o.base = base := by
      rcases ho with rfl | ⟨e, he, -, rfl⟩
      · rfl
      · exact base_of_mem_history_under he
    exact ⟨o.now.date, by rw [hpath, pathOf, hbase]⟩

/-- The path that a claim finds is that of the very day. -/
theorem renew_path (h : ReachableUnder base s) (now : Instant) :
    (s.renew ⟨base, now⟩).path = logPath s.config.file.name s.config.file.includeDate base now.date := by
  rw [Store.renew_path]
  cases hdate : s.config.file.includeDate
  · obtain ⟨day, hpath⟩ := h.path
    rw [if_neg Bool.false_ne_true, hpath, hdate]
    exact logPath_undated _ _ _ _
  · rw [if_pos rfl, pathOf, hdate]

end ReachableUnder

/-- In every history under one directory: the template is that of the configuration; the path is empty exactly if
    the name of the file is blank, and is otherwise that of a day on which the clock was read; and a claim is
    granted nothing exactly if the name is blank, and otherwise the path of the very day. -/
theorem derived_run (base : Path) (first : Instant) (past : List (Instant × Request)) :
    let s := (initial ⟨base, first⟩).run (under base past)
    let entries := (initial ⟨base, first⟩).history (under base past)
    let path := fun t : Instant => logPath s.config.file.name s.config.file.includeDate base t.date
    s.template = Template.compile s.config.template ∧
    (s.path.isEmpty = true ↔ Text.trimmed s.config.file.name = "") ∧
    (Text.trimmed s.config.file.name ≠ "" → ∃ t, ReadOn ⟨base, first⟩ entries ⟨base, t⟩ ∧ s.path = path t) ∧
    ∀ now, ((s.claim ⟨base, now⟩).1 = none ↔ Text.trimmed s.config.file.name = "") ∧
      ∀ grant, (s.claim ⟨base, now⟩).1 = some grant → grant.path = path now := by
  intro s entries path
  have hunder : ReachableUnder base s := ⟨first, past, rfl⟩
  have hs : UpToDate ⟨base, first⟩ entries s := upToDate_run ⟨base, first⟩ (under base past)
  have hblank : Text.trimmed s.config.file.name = "" ↔ s.config.file.isEnabled = false := by
    rw [Text.trimmed_eq_empty_iff, isEnabled_eq]
    simp
  rw [hblank]
  refine ⟨hs.template, by simp [hunder.reachable.path_isEmpty], fun hname => ?_, fun now => ?_⟩
  · obtain ⟨⟨base', t⟩, hread, hpath⟩ := hs.named (by simpa [hblank] using hname)
    have hbase : base' = base := by
      rcases hread with h | ⟨e, he, -, h⟩
      · exact (Occasion.mk.inj h).1
      · rw [← base_of_mem_history_under he, h]
    subst hbase
    exact ⟨t, hread, hpath⟩
  · have hempty := hunder.reachable.renew_path_isEmpty ⟨base, now⟩
    cases hfile : s.config.file.isEnabled
    · rw [hfile] at hempty
      rw [claim_of_isEmpty hempty]
      exact ⟨by simp, fun grant h => by cases h⟩
    · rw [hfile] at hempty
      rw [claim_of_not_isEmpty hempty]
      refine ⟨by simp, fun grant h => ?_⟩
      obtain rfl := Option.some.inj h
      exact hunder.renew_path now

end Store
end Logbook
