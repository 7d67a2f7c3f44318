import Logbook.Proofs.LogPath

/-! Where the log files of relative names lie. A name that is read from a directory adds its steps to those of the
    directory, and the date changes the last step only. Main statement: such a path starts with the directory, unless
    the name has no step of its own; then the last step is that of the directory, and it is the directory whose name
    gets the date. -/

namespace Logbook
namespace Path

theorem startsWith_iff {p base : Path} : p.startsWith base = true ↔ base.components <+: p.components :=
  List.isPrefixOf_iff_prefix

theorem fileName?_of_isEmpty {p : Path} (h : p.isEmpty = true) : p.fileName? = none := by
  obtain ⟨p⟩ := p
  obtain rfl : p = "" := by simpa [isEmpty] using h
  rfl

theorem fileName?_congr {p q : Path} (h : p.components = q.components) : p.fileName? = q.fileName? := by
  apply Option.ext
  intro name
  rw [fileName?_eq_some_iff, fileName?_eq_some_iff, h]

/-! ### Steps of a name -/

/-- The path does more than stay where it is. -/
def Moves (p : Path) : Prop :=
  ∃ step ∈ p.components, step ≠ .here

theorem here_not_mem_stepsOf (s : List Char) : .here ∉ stepsOf s := by
  intro h
  obtain ⟨segment, -, hstep⟩ := List.mem_filterMap.mp h
  unfold Component.ofSegment? at hstep
  split at hstep
  · cases hstep
  · split at hstep <;> cases hstep

theorem moves_iff {p : Path} (h : p.isAbsolute = false) : p.Moves ↔ stepsOf p.text.toList ≠ [] := by
  have hhead : p.text.toList.head? ≠ some '/' := by simpa [isAbsolute] using h
  have hlead : ∀ step ∈ Component.ofLead (leadOf p.text.toList), step = .here := by
    unfold leadOf
    split
    · next hs => exact absurd (by rw [hs]; rfl) hhead
    all_goals simp [Component.ofLead]
  have hsteps : p.components = Component.ofLead (leadOf p.text.toList) ++ stepsOf p.text.toList := by
    rw [components_eq, stepsOf_drop_leadOf hhead]
  constructor
  · rintro ⟨step, hmem, hstep⟩ hnil
    rw [hsteps, hnil, List.append_nil] at hmem
    exact hstep (hlead step hmem)
  · intro hne
    obtain ⟨step, hmem⟩ := List.exists_mem_of_ne_nil _ hne
    refine ⟨step, ?_, fun hstep => here_not_mem_stepsOf _ (hstep ▸ hmem)⟩
    rw [hsteps]
    exact List.mem_append_right _ hmem

theorem prefix_components_join {p : Path} (h : p.isAbsolute = false) (base : Path) :
    base.components <+: (base.join p).components := by
  cases hb : base.isEmpty
  · rw [components_join hb h]
    exact List.prefix_append _ _
  · rw [components_of_isEmpty hb]
    exact List.nil_prefix

/-! ### Dated paths -/

theorem stamped_ne (name stamp : String) :
    (splitName name).1 ++ "_" ++ stamp ++ dotted (splitName name).2 ≠ name := by
  intro h
  have hstamped := congrArg String.length h
  have hwhole := congrArg String.length (splitsInto_splitName name).whole
  have hunderscore : "_".length = 1 := rfl
  rw [String.length_append, String.length_append, String.length_append] at hstamped
  rw [String.length_append] at hwhole
  omega

theorem components_dated_of_none {p : Path} (hname : p.fileName? = none) {stamp : String} (h : '/' ∉ stamp.toList) :
    (p.dated stamp).components = p.components ++ [.name ("_" ++ stamp)] := by
  have hstep : IsName ("_" ++ stamp).toList := by
    have hstamped := @isName_stamped "" stamp "" (by simp) h (by simp)
    rwa [String.empty_append, String.append_empty] at hstamped
  have hdated : p.dated stamp = p.join ⟨"_" ++ stamp⟩ := by simp [dated, withFileName, hname]
  rw [hdated, components_join_name hstep]

/-- The date changes the last step only. -/
theorem components_dated {p : Path} {last : String} (hname : p.fileName? = some last) {stamp : String}
    (h : '/' ∉ stamp.toList) : ∃ directory, p.components = directory ++ [.name last] ∧ (p.dated stamp).components =
      directory ++ [.name ((splitName last).1 ++ "_" ++ stamp ++ dotted (splitName last).2)] := by
  have hslash := slash_not_mem_fileName hname
  have hstep := isName_stamped (slash_not_mem_splitName hslash).1 h (slash_not_mem_dotted hslash)
  obtain ⟨hdated, directory, hparent, hparent'⟩ := withFileName_of_fileName hname hstep
  rw [dated_of_fileName hname]
  exact ⟨directory.components, components_of_parent hname hparent, components_of_parent hdated hparent'⟩

section
variable {base p : Path} {stamp : String}

/-- A path with further steps than a directory stays under it when it is dated. -/
theorem startsWith_dated (h : '/' ∉ stamp.toList) {steps : List Component} (hne : steps ≠ [])
    (hsteps : p.components = base.components ++ steps) : (p.dated stamp).startsWith base = true := by
  rw [startsWith_iff]
  cases hname : p.fileName? with
  | none =>
    rw [components_dated_of_none hname h, hsteps, List.append_assoc]
    exact List.prefix_append _ _
  | some last =>
    obtain ⟨directory, hlast, hdated⟩ := components_dated hname h
    have hdirectory : directory = base.components ++ steps.dropLast := by
      rw [← List.dropLast_append_of_ne_nil hne, ← hsteps, hlast, List.dropLast_concat]
    rw [hdated, hdirectory, List.append_assoc]
    exact List.prefix_append _ _

/-- A path with the steps of a directory leaves it when it is dated, unless the directory has no name. -/
theorem startsWith_dated_of_same (h : '/' ∉ stamp.toList) (hsteps : p.components = base.components) :
    (p.dated stamp).startsWith base = true ↔ base.fileName? = none := by
  rw [startsWith_iff, ← fileName?_congr hsteps, ← hsteps]
  cases hname : p.fileName? with
  | none =>
    rw [components_dated_of_none hname h]
    exact iff_of_true (List.prefix_append _ _) rfl
  | some last =>
    obtain ⟨directory, hlast, hdated⟩ := components_dated hname h
    refine iff_of_false (fun hprefix => ?_) nofun
    -- There are as many steps as before, so a prefix would be all of them; but the last one has changed.
    have heq := hprefix.eq_of_length (by rw [hlast, hdated, List.length_append, List.length_append]; rfl)
    rw [hlast, hdated, List.append_cancel_left_eq, List.cons.injEq, Component.name.injEq] at heq
    exact stamped_ne last stamp heq.1.symm

theorem sameSteps_dated (h : '/' ∉ stamp.toList) (hsteps : p.components = base.components) :
    (p.dated stamp).sameSteps (base.dated stamp) = true := by
  rw [sameSteps, beq_iff_eq]
  have hname := fileName?_congr hsteps
  cases hbase : base.fileName? with
  | none =>
    rw [components_dated_of_none hbase h, components_dated_of_none (hname.trans hbase) h, hsteps]
  | some last =>
    obtain ⟨directory, hlast, hdated⟩ := components_dated hbase h
    obtain ⟨directory', hlast', hdated'⟩ := components_dated (hname.trans hbase) h
    rw [hlast, hlast'] at hsteps
    rw [hdated, hdated', List.append_cancel_right hsteps]

end
end Path

/-! ### Log files -/

/-- A relative name leads to a path under the directory that it is read from, with one exception: with a date, a name
    that does not move leads to the directory itself, and so to a path beside it, unless the directory has no name. -/
theorem logPath_startsWith_iff {name : String} (hname : Text.isBlankText name = false)
    (hrelative : Path.isAbsolute ⟨Text.trimmed name⟩ = false) (base : Path) (day : Date) :
    (logPath name false base day).startsWith base = true ∧
      ((logPath name true base day).startsWith base = true ↔
        Path.Moves ⟨Text.trimmed name⟩ ∨ base.fileName? = none) ∧
      (¬Path.Moves ⟨Text.trimmed name⟩ → base.isEmpty = false →
        (logPath name true base day).sameSteps (base.dated day.stamp) = true) := by
  have hslash := Date.slash_not_mem_stamp day
  have hplain : logPath name false base day = base.join ⟨Text.trimmed name⟩ := by simp [logPath, hname]
  have hdated : logPath name true base day = (base.join ⟨Text.trimmed name⟩).dated day.stamp := by
    simp [logPath, hname]
  rw [hplain, hdated, Path.moves_iff hrelative]
  refine ⟨Path.startsWith_iff.mpr (Path.prefix_components_join hrelative base), ?_⟩
  cases hbase : base.isEmpty
  · have hsteps := Path.components_join hbase hrelative
    by_cases hmoves : Path.stepsOf (Text.trimmed name).toList = []
    · rw [hmoves, List.append_nil] at hsteps
      rw [Path.startsWith_dated_of_same hslash hsteps]
      exact ⟨by simp [hmoves], fun _ _ => Path.sameSteps_dated hslash hsteps⟩
    · exact ⟨iff_of_true (Path.startsWith_dated hslash hmoves hsteps) (.inl hmoves), fun h => absurd hmoves h⟩
  · have hroot : base.components <+: ((base.join ⟨Text.trimmed name⟩).dated day.stamp).components := by
      rw [Path.components_of_isEmpty hbase]
      exact List.nil_prefix
    exact ⟨iff_of_true (Path.startsWith_iff.mpr hroot) (.inr (Path.fileName?_of_isEmpty hbase)),
      fun _ hsome => absurd hsome (by decide)⟩

theorem logPath_startsWith_iff_dots :
    let name := " ./. "
    let day : Date := ⟨2024, 1, 1⟩
    Text.isBlankText name = false ∧ Path.isAbsolute ⟨Text.trimmed name⟩ = false ∧
      (logPath name false ⟨"/srv/app"⟩ day).startsWith ⟨"/srv/app"⟩ = true ∧
      (logPath name true ⟨"/"⟩ day).startsWith ⟨"/"⟩ = true ∧
      (logPath name true ⟨"/srv/app"⟩ day).sameSteps ⟨"/srv/app_20240101"⟩ = true ∧
      (logPath "./jobs/." true ⟨"/srv/app"⟩ day).startsWith ⟨"/srv/app"⟩ = true := by
  intro name day
  have hname : Text.isBlankText name = false := by decide
  have hrelative : Path.isAbsolute ⟨Text.trimmed name⟩ = false := by decide
  have hstays : ¬Path.Moves ⟨Text.trimmed name⟩ := by
    rw [Path.moves_iff hrelative]
    decide
  have hmoves : Path.Moves ⟨Text.trimmed "./jobs/."⟩ := by
    rw [Path.moves_iff (by decide)]
    decide
  obtain ⟨hplain, -, hbeside⟩ := logPath_startsWith_iff hname hrelative ⟨"/srv/app"⟩ day
  have hroot := (logPath_startsWith_iff hname hrelative ⟨"/"⟩ day).2.1
  have hjobs := (@logPath_startsWith_iff "./jobs/." (by decide) (by decide) ⟨"/srv/app"⟩ day).2.1
  have hdated : Path.dated ⟨"/srv/app"⟩ day.stamp = ⟨"/srv/app_20240101"⟩ := by decide +kernel
  exact ⟨hname, hrelative, hplain, hroot.mpr (.inr (by decide)), hdated ▸ hbeside hstays (by decide),
    hjobs.mpr (.inl hmoves)⟩

/-- A name that is a dot is relative and has no step up, and with a date its path lies beside the directory. -/
theorem not_startsWith_dot :
    Text.isBlankText "." = false ∧ Path.isAbsolute ⟨Text.trimmed "."⟩ = false ∧
      .up ∉ Path.components ⟨Text.trimmed "."⟩ ∧
      logPath "." true ⟨"/srv/app"⟩ ⟨2024, 1, 1⟩ = ⟨"/srv/app_20240101"⟩ ∧
      (logPath "." true ⟨"/srv/app"⟩ ⟨2024, 1, 1⟩).startsWith ⟨"/srv/app"⟩ = false := by
  decide +kernel

end Logbook
