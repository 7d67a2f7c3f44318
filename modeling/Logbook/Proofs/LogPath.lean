import Logbook.Proofs.Path.Parts
import Logbook.Proofs.Text.Blank
import Logbook.Proofs.Time.Stamp

/-! The path of a log file over the days. A name that is not blank always gives a path; without a date that is the
    same path every day, and with a date the last step alone tells the day. Main statements: the date stands between
    the stem and the extension and changes nothing else, a path that was left is not come back to, and two different
    paths of one name end with different steps. -/

namespace Logbook

namespace Path

theorem dated_of_fileName {p : Path} {name : String} (h : p.fileName? = some name) (stamp : String) :
    p.dated stamp = p.withFileName ((splitName name).1 ++ "_" ++ stamp ++ dotted (splitName name).2) := by
  obtain ⟨stem, extension?, hsplit⟩ : ∃ stem extension?, splitName name = (stem, extension?) := ⟨_, _, rfl⟩
  rw [dated, h]
  dsimp only
  rw [hsplit]
  cases extension? with
  | none => simp [dotted]
  | some extension => simp [dotted, String.append_assoc]

/-- A dated path is a name in a directory, and around the stamp the name is the same for every day. -/
theorem dated_eq (p : Path) : ∃ (directory : Path) (before after : String),
    '/' ∉ before.toList ∧ '/' ∉ after.toList ∧
      ∀ stamp, p.dated stamp = directory.join ⟨before ++ "_" ++ stamp ++ after⟩ := by
  cases hname : p.fileName? with
  | none => exact ⟨p, "", "", by simp, by simp, fun stamp => by simp [dated, withFileName, hname]⟩
  | some name =>
    have hslash := slash_not_mem_fileName hname
    refine ⟨p.parent?.getD default, (splitName name).1, dotted (splitName name).2, (slash_not_mem_splitName hslash).1,
      slash_not_mem_dotted hslash, fun stamp => ?_⟩
    rw [dated_of_fileName hname, withFileName, hname]

theorem isName_stamped {before stamp after : String} (hb : '/' ∉ before.toList) (hs : '/' ∉ stamp.toList)
    (ha : '/' ∉ after.toList) : IsName (before ++ "_" ++ stamp ++ after).toList where
  slash := by simp [hb, hs, ha]
  busy := by
    have h : '_' ∈ (before ++ "_" ++ stamp ++ after).toList := by simp
    cases hidle : isIdle (before ++ "_" ++ stamp ++ after).toList
    · rfl
    · simp only [isIdle, Bool.or_eq_true, beq_iff_eq] at hidle
      rcases hidle with hidle | hidle <;> rw [hidle] at h <;> simp at h
  down := by
    intro hdots
    have h : '_' ∈ (before ++ "_" ++ stamp ++ after).toList := by simp
    rw [hdots] at h
    simp at h

theorem stamped_inj {before after s t : String}
    (h : before ++ "_" ++ s ++ after = before ++ "_" ++ t ++ after) : s = t := by
  have h' := congrArg String.toList h
  simp only [String.toList_append, List.append_assoc] at h'
  have h'' := List.append_cancel_left (List.append_cancel_left h')
  exact String.toList_inj.mp (List.append_cancel_right h'')

/-- The file name of a dated path is the stamp, with an underscore in front of it, between the same texts every day. -/
theorem fileName?_dated (p : Path) : ∃ before after : String, ∀ stamp : String, '/' ∉ stamp.toList →
    (p.dated stamp).fileName? = some (before ++ "_" ++ stamp ++ after) := by
  obtain ⟨directory, before, after, hbefore, hafter, hdated⟩ := p.dated_eq
  refine ⟨before, after, fun stamp hstamp => ?_⟩
  rw [hdated, fileName?_eq_some_iff]
  exact getLast?_components_join (isName_stamped hbefore hstamp hafter)

end Path

/-! ### Paths of log files -/

theorem logPath_isEmpty (name : String) (withDate : Bool) (base : Path) (day : Date) :
    (logPath name withDate base day).isEmpty = Text.isBlankText name := by
  cases hblank : Text.isBlankText name
  · have hname : Path.isEmpty ⟨Text.trimmed name⟩ = false := by
      have : Text.trimmed name ≠ "" := fun h => by
        rw [Text.trimmed_eq_empty_iff, hblank] at h
        cases h
      simpa [Path.isEmpty] using this
    rw [logPath, hblank]
    cases withDate
    · simp only [Bool.false_eq_true, if_false]
      exact Path.join_isEmpty hname
    · obtain ⟨directory, before, after, -, -, hdated⟩ := Path.dated_eq (base.join ⟨Text.trimmed name⟩)
      simp only [Bool.false_eq_true, if_false, if_true, hdated]
      exact Path.join_isEmpty (by simp [Path.isEmpty])
  · rw [logPath, hblank]
    rfl

theorem logPath_of_blank {name : String} (h : Text.isBlankText name = true) (withDate : Bool) (base : Path)
    (day : Date) : logPath name withDate base day = default := by
  rw [logPath, if_pos h]

theorem logPath_undated (name : String) (base : Path) (day day' : Date) :
    logPath name false base day = logPath name false base day' := by
  simp [logPath]

theorem fileName?_logPath {name : String} (hname : Text.isBlankText name = false) (base : Path) :
    ∃ before after : String, ∀ day : Date,
      (logPath name true base day).fileName? = some (before ++ "_" ++ day.stamp ++ after) := by
  obtain ⟨before, after, hdated⟩ := (base.join ⟨Text.trimmed name⟩).fileName?_dated
  refine ⟨before, after, fun day => ?_⟩
  rw [logPath, hname, if_neg Bool.false_ne_true, if_pos rfl]
  exact hdated _ (Date.slash_not_mem_stamp day)

/-- With a date the last step of the path tells the date. -/
theorem date_eq_of_last {name : String} {base : Path} {day day' : Date} (hname : Text.isBlankText name = false)
    (hday : day.month ≤ 12 ∧ day.day ≤ 31) (hday' : day'.month ≤ 12 ∧ day'.day ≤ 31)
    (h : (logPath name true base day).components.getLast? = (logPath name true base day').components.getLast?) :
    day = day' := by
  obtain ⟨before, after, hfile⟩ := fileName?_logPath hname base
  rw [Path.fileName?_eq_some_iff.mp (hfile _), Path.fileName?_eq_some_iff.mp (hfile _), Option.some_inj,
    Path.Component.name.injEq] at h
  exact Date.eq_of_stamp_eq hday hday' (Path.stamped_inj h)

theorem day_eq_of_last {name : String} {base : Path} {m n : Int} (hname : Text.isBlankText name = false)
    (h : (logPath name true base (Date.ofDayNumber m)).components.getLast? =
      (logPath name true base (Date.ofDayNumber n)).components.getLast?) : m = n :=
  Date.ofDayNumber_inj (date_eq_of_last hname (Date.ofDayNumber_bounds m) (Date.ofDayNumber_bounds n) h)

/-- A dated path lies where the path without the date lies, and its file name is that of the path without the date, but
    for an underscore and the date between the stem and the extension; so it is under every name that ends with a file
    name. Under every name that is not blank, different dates give different paths. -/
theorem logPath_splices (name : String) (base : Path) :
    (∀ last, Path.fileName? ⟨Text.trimmed name⟩ = some last → ∀ day : Date,
      (logPath name false base day).fileName? = some last ∧
        Path.SplitsInto last (Path.splitName last).1 (Path.splitName last).2 ∧
        (logPath name true base day).fileName? =
          some ((Path.splitName last).1 ++ "_" ++ day.stamp ++ Path.dotted (Path.splitName last).2) ∧
        ∃ directory, (logPath name false base day).parent? = some directory ∧
          (logPath name true base day).parent? = some directory) ∧
    (Text.isBlankText name = false → ∀ day day' : Date, (day.month ≤ 12 ∧ day.day ≤ 31) →
      (day'.month ≤ 12 ∧ day'.day ≤ 31) → day ≠ day' →
        (logPath name true base day).sameSteps (logPath name true base day') = false) := by
  refine ⟨fun last hlast day => ?_, fun hname day day' hday hday' hne => ?_⟩
  · have hname : Text.isBlankText name = false := by
      rw [Text.isBlankText_eq_false_iff]
      intro hempty
      rw [hempty] at hlast
      cases hlast
    have hplain : logPath name false base day = base.join ⟨Text.trimmed name⟩ := by simp [logPath, hname]
    have hdated : logPath name true base day = (base.join ⟨Text.trimmed name⟩).dated day.stamp := by
      simp [logPath, hname]
    have hfile := Path.fileName?_join hlast base
    have hslash := Path.slash_not_mem_fileName hlast
    rw [hplain, hdated, Path.dated_of_fileName hfile]
    have hspliced := Path.isName_stamped (Path.slash_not_mem_splitName hslash).1 (Date.slash_not_mem_stamp day)
      (Path.slash_not_mem_dotted hslash)
    exact ⟨hfile, Path.splitsInto_splitName last, Path.withFileName_of_fileName hfile hspliced⟩
  · cases hsteps : (logPath name true base day).sameSteps (logPath name true base day') with
    | false => rfl
    | true => exact absurd (date_eq_of_last hname hday hday' (congrArg List.getLast? (eq_of_beq hsteps))) hne

theorem logPath_splices_years :
    let name := " logs/./Out.tar.gz/ "
    Path.fileName? ⟨Text.trimmed name⟩ = some "Out.tar.gz" ∧ Text.isBlankText name = false ∧
      (logPath name true ⟨"/srv"⟩ ⟨-1, 12, 31⟩).fileName? = some "Out.tar_-00011231.gz" ∧
      (logPath name true ⟨"/srv"⟩ ⟨-1, 12, 31⟩).sameSteps (logPath name true ⟨"/srv"⟩ ⟨10000, 1, 1⟩) = false := by
  intro name
  have hlast : Path.fileName? ⟨Text.trimmed name⟩ = some "Out.tar.gz" := by decide +kernel
  have hname : Text.isBlankText name = false := by decide
  obtain ⟨hspliced, hapart⟩ := logPath_splices name ⟨"/srv"⟩
  have hshown : (Path.splitName "Out.tar.gz").1 ++ "_" ++ Date.stamp ⟨-1, 12, 31⟩ ++
      Path.dotted (Path.splitName "Out.tar.gz").2 = "Out.tar_-00011231.gz" := by decide +kernel
  refine ⟨hlast, hname, ?_, hapart hname _ _ (by decide) (by decide) (by decide)⟩
  rw [← hshown]
  exact (hspliced _ hlast _).2.2.1

section
variable {name : String} {withDate : Bool} {base : Path} {k m n : Int}

/-- Two paths of one name that differ end with different steps. -/
theorem last_ne_of_logPath_ne
    (h : logPath name withDate base (Date.ofDayNumber m) ≠ logPath name withDate base (Date.ofDayNumber n)) :
    (logPath name withDate base (Date.ofDayNumber m)).components.getLast? ≠
      (logPath name withDate base (Date.ofDayNumber n)).components.getLast? := by
  intro hlast
  apply h
  cases hname : Text.isBlankText name
  · cases withDate
    · exact logPath_undated name base _ _
    · rw [day_eq_of_last hname hlast]
  · rw [logPath_of_blank hname, logPath_of_blank hname]

theorem sameSteps_logPath_iff :
    (logPath name withDate base (Date.ofDayNumber m)).sameSteps
        (logPath name withDate base (Date.ofDayNumber n)) = true ↔
      logPath name withDate base (Date.ofDayNumber m) = logPath name withDate base (Date.ofDayNumber n) := by
  constructor
  · intro hsteps
    by_contra hne
    exact last_ne_of_logPath_ne hne (congrArg List.getLast? (eq_of_beq hsteps))
  · intro heq
    rw [heq, Path.sameSteps_self]

/-- A path that was left is not come back to: where the days run forward, a path that holds on two days holds on
    every day between them. -/
theorem logPath_between (hmk : m ≤ k) (hkn : k ≤ n)
    (h : logPath name withDate base (Date.ofDayNumber m) = logPath name withDate base (Date.ofDayNumber n)) :
    logPath name withDate base (Date.ofDayNumber k) = logPath name withDate base (Date.ofDayNumber m) := by
  cases hname : Text.isBlankText name
  · cases withDate
    · exact logPath_undated name base _ _
    · have hmn : m = n := day_eq_of_last hname (by rw [h])
      have hkm : k = m := by omega
      rw [hkm]
  · rw [logPath_of_blank hname, logPath_of_blank hname]

/-- Whether a path is still that of an earlier day may be asked in between as well. -/
theorem sameSteps_logPath_between (hmk : m ≤ k) (hkn : k ≤ n) :
    (logPath name withDate base (Date.ofDayNumber n)).sameSteps (logPath name withDate base (Date.ofDayNumber m)) =
      ((logPath name withDate base (Date.ofDayNumber k)).sameSteps (logPath name withDate base (Date.ofDayNumber m)) &&
        (logPath name withDate base (Date.ofDayNumber n)).sameSteps
          (logPath name withDate base (Date.ofDayNumber k))) := by
  rw [Bool.eq_iff_iff, Bool.and_eq_true, sameSteps_logPath_iff, sameSteps_logPath_iff, sameSteps_logPath_iff]
  constructor
  · intro h
    have hk := logPath_between hmk hkn h.symm
    exact ⟨hk, h.trans hk.symm⟩
  · rintro ⟨hk, hn⟩
    exact hn.trans hk

end
end Logbook
