import Logbook.Proofs.Patch
import Logbook.Proofs.Store.Derived

/-! Stores that nobody can tell apart. A configuration that is put in force as a whole finds the path again, and a patch
    of every setting may keep that of an earlier day; so after midnight the two stores differ in their paths, and in
    whether the file counts as written. They are alike all the same: found again on any day to come, their paths make
    them one store, because a path that was left is not come back to. Main statement: replacing and patching agree, and
    no later request brings out a difference. -/

namespace Logbook
namespace Store

/-! ### What can be seen of a store -/

/-- What can be seen of an entry: the answer, and the configuration and the template after it. A configuration that is
    handed out has its path with it, but equals any other with the same settings. -/
def Entry.seen (e : Entry) : Except Error (Option FileGrant) × Configuration × Template :=
  (e.answer, e.after.config, e.after.template)

/-- The days of these times run forward. -/
def RunsForward (times : List Instant) : Prop :=
  times.Pairwise fun t u => t.dayNumber ≤ u.dayNumber

/-- Whatever is asked of both stores from time `t` on, while files lie under one directory and the days run forward,
    the same can be seen of them: at first, and after every request. -/
def Indistinguishable (base : Path) (t : Instant) (a b : Store) : Prop :=
  a.config = b.config ∧ a.template = b.template ∧
    ∀ later : List (Instant × Request), RunsForward (t :: later.map (·.1)) →
      (a.history (under base later)).map Entry.seen = (b.history (under base later)).map Entry.seen

/-! ### The path of an earlier day -/

/-- The path is that of some day up to time `t`. -/
def FoundBy (base : Path) (t : Instant) (s : Store) : Prop :=
  ∃ day ≤ t.dayNumber, s.path = logPath s.config.file.name s.config.file.includeDate base (Date.ofDayNumber day)

/-- Where the days run forward, the clock was read up to now. -/
theorem readOn_under {base : Path} {first now : Instant} {past : List (Instant × Request)} {s : Store} {o : Occasion}
    (hdays : RunsForward (first :: past.map (·.1) ++ [now]))
    (h : ReadOn ⟨base, first⟩ (s.history (under base past)) o) :
    o.base = base ∧ o.now.dayNumber ≤ now.dayNumber := by
  have hnow : ∀ t ∈ first :: past.map (·.1), t.dayNumber ≤ now.dayNumber := fun t ht =>
    (List.pairwise_append.mp hdays).2.2 t ht now List.mem_cons_self
  rcases h with rfl | ⟨e, he, -, rfl⟩
  · exact ⟨rfl, hnow first List.mem_cons_self⟩
  · obtain ⟨x, hx, hoccasion⟩ := List.mem_map.mp (occasion_of_mem_history he)
    obtain ⟨y, hy, rfl⟩ := List.mem_map.mp hx
    rw [← hoccasion]
    exact ⟨rfl, hnow _ (List.mem_cons_of_mem _ (List.mem_map_of_mem hy))⟩

theorem foundBy_run (base : Path) {first now : Instant} {past : List (Instant × Request)}
    (hdays : RunsForward (first :: past.map (·.1) ++ [now])) :
    FoundBy base now ((initial ⟨base, first⟩).run (under base past)) := by
  have hs := upToDate_run ⟨base, first⟩ (under base past)
  cases hfile : ((initial ⟨base, first⟩).run (under base past)).config.file.isEnabled
  · refine ⟨now.dayNumber, Int.le_refl _, ?_⟩
    rw [hs.unnamed hfile]
    exact (pathOf_of_not_isEnabled hfile ⟨base, now⟩).symm
  · obtain ⟨o, hread, hpath⟩ := hs.named hfile
    obtain ⟨hbase, hday⟩ := readOn_under hdays hread
    exact ⟨o.now.dayNumber, hday, by rw [hpath, pathOf, hbase]; rfl⟩

/-! ### Stores that are alike -/

/-- Once the path is found again, on any day from time `t` on, the stores are the same. -/
def Alike (base : Path) (t : Instant) (a b : Store) : Prop :=
  ∀ u : Instant, t.dayNumber ≤ u.dayNumber → a.renew ⟨base, u⟩ = b.renew ⟨base, u⟩

/-- A configuration that is put in force finds the path again by itself. -/
theorem adopt_renew (s : Store) (c : Configuration) (o : Occasion) : (s.renew o).adopt c o = s.adopt c o := by
  cases hdate : s.config.file.includeDate
  · rw [renew, hdate, if_neg Bool.false_ne_true]
  · rw [renew, hdate, if_pos rfl]
    cases hc : s.config.sameFile c
    · simp [adopt, refresh, hc]
    · simp [adopt, refresh, hc, pathOf_congr hc o]

theorem withPatched_of_not_sameFile {s : Store} {c : Configuration} (h : s.config.sameFile c = false)
    (template : Template) (o : Occasion) :
    s.withPatched c template o = ⟨c, template, pathOf c o, false⟩ := by
  simp [withPatched, h, refresh]

/-- It makes no difference whether the path is found again before or after a patch that leaves the file alone. -/
theorem renew_withPatched {s : Store} {c : Configuration} (h : s.config.sameFile c = true) (template : Template)
    (o o' : Occasion) : (s.withPatched c template o).renew o' =
      { s.renew o' with config := c, template := template } := by
  rw [withPatched, if_pos h, renew, renew, (sameFile_iff.mp h).2]
  cases c.file.includeDate
  · rfl
  · simp [refresh, pathOf_congr h o']

section
variable {base : Path} {t u : Instant} {s a b : Store}

namespace Alike

theorem refl (base : Path) (t : Instant) (a : Store) : Alike base t a a := fun _ _ => rfl

theorem later (h : Alike base t a b) (htu : t.dayNumber ≤ u.dayNumber) : Alike base u a b :=
  fun v huv => h v (Int.le_trans htu huv)

theorem config (h : Alike base t a b) : a.config = b.config := by
  have hrenew := congrArg Store.config (h t (Int.le_refl _))
  rwa [renew_config, renew_config] at hrenew

theorem template (h : Alike base t a b) : a.template = b.template := by
  have hrenew := congrArg Store.template (h t (Int.le_refl _))
  rwa [renew_template, renew_template] at hrenew

theorem adopt (h : Alike base t a b) (c : Configuration) : a.adopt c ⟨base, t⟩ = b.adopt c ⟨base, t⟩ := by
  rw [← adopt_renew a, ← adopt_renew b, h t (Int.le_refl _)]

theorem claim (h : Alike base t a b) : a.claim ⟨base, t⟩ = b.claim ⟨base, t⟩ := by
  simp only [Store.claim, h t (Int.le_refl _)]

theorem withPatched (h : Alike base t a b) (c : Configuration) (template : Template) :
    Alike base t (a.withPatched c template ⟨base, t⟩) (b.withPatched c template ⟨base, t⟩) := by
  cases hc : a.config.sameFile c
  · -- The settings of the file change, so the paths of before count for nothing.
    rw [withPatched_of_not_sameFile hc, withPatched_of_not_sameFile (h.config ▸ hc)]
    exact refl _ _ _
  · intro u htu
    rw [renew_withPatched hc, renew_withPatched (h.config ▸ hc), h u htu]

/-- A request that does the same to both stores, or fails for both with the same error, leaves them alike. -/
theorem step_of_perform (h : Alike base t a b) {r : Request} (hr : a.perform ⟨base, t⟩ r = b.perform ⟨base, t⟩ r) :
    (a.step ⟨base, t⟩ r).1 = (b.step ⟨base, t⟩ r).1 ∧ Alike base t (a.step ⟨base, t⟩ r).2 (b.step ⟨base, t⟩ r).2 := by
  rw [step_eq, step_eq, hr]
  cases b.perform ⟨base, t⟩ r with
  | error e => exact ⟨rfl, h⟩
  | ok done => exact ⟨rfl, refl _ _ _⟩

theorem step (h : Alike base t a b) (r : Request) :
    (a.step ⟨base, t⟩ r).1 = (b.step ⟨base, t⟩ r).1 ∧ Alike base t (a.step ⟨base, t⟩ r).2 (b.step ⟨base, t⟩ r).2 := by
  cases r with
  | patch p =>
    -- A patch alone may keep the paths as they are, so the stores need not be the same after it.
    simp only [step_eq, perform, patch_eq_map, patched, ← h.config, ← h.template]
    cases p.apply a.config with
    | error e => exact ⟨rfl, h⟩
    | ok c => exact ⟨rfl, h.withPatched c _⟩
  | replace c => exact h.step_of_perform (by simp only [perform, restore, replace_eq_map, h.adopt])
  | reset => exact h.step_of_perform (by simp only [perform, reset, h.adopt])
  | load text => exact h.step_of_perform (by simp only [perform, load_eq_bind, replace_eq_map, h.adopt])
  | claim => exact h.step_of_perform (by simp only [perform, h.claim])

/-- Stores that are alike stay so through all that is asked of both, and so no request tells them apart. -/
theorem indistinguishable (h : Alike base t a b) : Indistinguishable base t a b := by
  refine ⟨h.config, h.template, fun later hdays => ?_⟩
  induction later generalizing t a b with
  | nil => rfl
  | cons x later ih =>
    obtain ⟨u, r⟩ := x
    obtain ⟨hnow, hrest⟩ := List.pairwise_cons.mp hdays
    have htu : t.dayNumber ≤ u.dayNumber := hnow u List.mem_cons_self
    obtain ⟨hanswer, hafter⟩ := (h.later htu).step r
    have hseen : (a.entry ⟨base, u⟩ r).seen = (b.entry ⟨base, u⟩ r).seen := by
      simp only [Entry.seen, entry, hanswer, hafter.config, hafter.template]
    show (a.entry ⟨base, u⟩ r).seen :: _ = (b.entry ⟨base, u⟩ r).seen :: _
    rw [hseen]
    exact congrArg _ (ih hafter hrest)

end Alike

/-! ### Replacing and patching -/

theorem patch_whole (htemplate : s.template = Template.compile s.config.template) (c : Configuration) (o : Occasion) :
    s.patch (Patch.whole c) o = c.validate.map fun _ => s.withPatched c (Template.compile c.template) o := by
  have hpatched : s.patched c o = s.withPatched c (Template.compile c.template) o := by
    rw [patched]
    split
    · next h => rw [htemplate, h]
    · rfl
  rw [patch_eq_map, Patch.apply_whole]
  cases c.validate with
  | error e => rfl
  | ok _ => exact congrArg Except.ok hpatched

theorem alike_adopt (hs : FoundBy base t s) (c : Configuration) :
    Alike base t (s.adopt c ⟨base, t⟩) (s.withPatched c (Template.compile c.template) ⟨base, t⟩) := by
  cases hc : s.config.sameFile c
  · have hsame : s.adopt c ⟨base, t⟩ = ⟨c, Template.compile c.template, pathOf c ⟨base, t⟩, false⟩ := by
      simp [adopt, refresh, hc]
    rw [withPatched_of_not_sameFile hc, hsame]
    exact Alike.refl _ _ _
  · obtain ⟨day, hday, hpath⟩ := hs
    obtain ⟨hname, hdate⟩ := sameFile_iff.mp hc
    rw [hname, hdate] at hpath
    intro u htu
    rw [renew_withPatched hc, renew, renew, adopt_config, hdate]
    cases hdated : c.file.includeDate
    · have hkept : s.path = pathOf c ⟨base, t⟩ := by
        rw [hpath, pathOf, hdated]
        exact logPath_undated _ _ _ _
      simp [adopt, refresh, hc, hkept]
    · -- The kept path is that of an earlier day. Whether it is left on day `u` may be asked on day `t` as well.
      have hleft := @sameSteps_logPath_between c.file.name true base _ _ _ hday htu
      rw [hdated] at hpath
      simp [adopt, refresh, hc, hpath, hname, pathOf, hdate, hdated, Instant.date, hleft, Bool.and_assoc]

end

/-- Replacing the configuration, and patching every setting of it, come to the same: both fail with the error that the
    check of the configuration finds and change nothing, or both succeed, with that configuration in force, and
    nothing that is asked later tells the two stores apart. A reset is the same as replacing by the default. -/
theorem replace_agrees (base : Path) (first : Instant) (past : List (Instant × Request)) (now : Instant)
    (hdays : RunsForward (first :: past.map (·.1) ++ [now])) (c : Snapshot) :
    let s := (initial ⟨base, first⟩).run (under base past)
    let o : Occasion := ⟨base, now⟩
    let replaced := s.step o (.replace c)
    let patched := s.step o (.patch (Patch.whole c.config))
    (match c.config.validate with
      | .error e => replaced = (.error e, s) ∧ patched = (.error e, s)
      | .ok _ => replaced.1 = .ok none ∧ patched.1 = .ok none ∧ replaced.2.config = c.config ∧
          Indistinguishable base now replaced.2 patched.2) ∧
    ∀ path, s.step o .reset = s.step o (.replace ⟨default, path⟩) ∧ (s.step o .reset).1 = .ok none := by
  intro s o replaced patched
  have hs : FoundBy base now s := foundBy_run base hdays
  have htemplate : s.template = Template.compile s.config.template :=
    (upToDate_run ⟨base, first⟩ (under base past)).template
  have hreplaced : s.perform o (.replace c) = c.config.validate.map fun _ => (none, s.adopt c.config o) := by
    rw [perform, restore, replace_eq_map]
    cases c.config.validate <;> rfl
  have hpatched : s.perform o (.patch (Patch.whole c.config)) =
      c.config.validate.map fun _ => (none, s.withPatched c.config (Template.compile c.config.template) o) := by
    rw [perform, patch_whole htemplate]
    cases c.config.validate <;> rfl
  refine ⟨?_, fun path => ⟨rfl, rfl⟩⟩
  simp only [replaced, patched, step_eq, hreplaced, hpatched]
  cases c.config.validate with
  | error e => exact ⟨rfl, rfl⟩
  | ok _ => exact ⟨rfl, rfl, rfl, (alike_adopt hs c.config).indistinguishable⟩

/-- A day after a line was granted, the path that is found again is not the path that a patch keeps. -/
theorem replace_agrees_next_day :
    let day : Int → Instant := fun n => ⟨86400 * n, 0, 0⟩
    let s := (initial ⟨⟨"/srv"⟩, day 0⟩).run (under ⟨"/srv"⟩ [(day 0, .claim)])
    let replaced := (s.step ⟨⟨"/srv"⟩, day 1⟩ (.replace ⟨default, default⟩)).2
    let patched := (s.step ⟨⟨"/srv"⟩, day 1⟩ (.patch (Patch.whole default))).2
    replaced ≠ patched ∧ Indistinguishable ⟨"/srv"⟩ (day 1) replaced patched := by
  intro day s replaced patched
  have hdays : RunsForward [day 0, day 0, day 1] := by simp [RunsForward, day, Instant.dayNumber, Instant.localSeconds]
  have hagree := (replace_agrees ⟨"/srv"⟩ (day 0) [(day 0, .claim)] (day 1) hdays ⟨default, default⟩).1
  rw [Configuration.validate_default] at hagree
  refine ⟨fun h => ?_, hagree.2.2.2⟩
  have hwritten := congrArg Store.written h
  revert hwritten
  decide +kernel

end Store
end Logbook
