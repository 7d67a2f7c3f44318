import Logbook.Proofs.LogPath
import Logbook.Proofs.Store.History
import Logbook.Proofs.Submission

/-! Lines and the days of their files. A day is shown in two ways, by the name of the log file and by a template that
    asks for year, month and day. Main statement: a line lands in the file of its own day, because the path is found
    again with every line that is granted a file. -/

namespace Logbook

/-- Under a dated name a claim is granted the path of the day, whatever the path was before. -/
theorem Store.fileName?_claim {s t : Store} {o : Occasion} {grant : FileGrant}
    (hdated : s.config.file.includeDate = true) (h : s.claim o = (some grant, t)) :
    t.path = grant.path ∧
      ∃ before after : String, grant.path.fileName? = some (before ++ "_" ++ o.now.date.stamp ++ after) := by
  have hpath : (s.renew o).path = logPath s.config.file.name true o.base o.now.date := by
    rw [renew_path, if_pos hdated, pathOf, hdated]
  have hname : Text.isBlankText s.config.file.name = false := by
    cases hempty : (s.renew o).path.isEmpty
    · rwa [hpath, logPath_isEmpty] at hempty
    · rw [claim_of_isEmpty hempty] at h
      cases (Prod.mk.inj h).1
  obtain ⟨rfl, rfl⟩ := claim_eq_some h
  obtain ⟨before, after, hfile⟩ := fileName?_logPath hname o.base
  exact ⟨rfl, before, after, by rw [hpath, hfile]⟩

namespace Template

/-- The template of nothing but the day. -/
def daySource : String :=
  "\x7bTimestamp:yyyyMMdd\x7d"

theorem render_daySource {t : Instant} (h : 0 ≤ t.date.year ∧ t.date.year ≤ 9999) {c : Context} (hc : c.time = t) :
    (compile daySource).render c = t.date.stamp := by
  have htokens : (compile daySource).tokens = [.timestamp (DateFormat.ofSpec "yyyyMMdd")] := by decide +kernel
  rw [render, htokens]
  simp [tokenText, hc, format_stamp h]

end Template

namespace Logger
variable {ω : Type} {l : Logger ω} {s : Store} {w : ω} {scene : Scene} {message : String} {o : Options}
  {done : Logged ω} {d : Decision} {grant : FileGrant}

/-- A line lands in the file of its own day. Whatever the clock showed before, and as long as it shows one day while the
    line is made and the file is claimed, the name of the file has the eight characters that a template shows of that
    day, with an underscore in front of them; and the path of the store is the one that was granted. -/
theorem submit_dated (hdated : s.config.file.includeDate = true)
    (hday : scene.occasion.now.date = scene.now.date) (hyear : 0 ≤ scene.now.date.year ∧ scene.now.date.year ≤ 9999)
    (hsubmit : l.submit s w scene message o = .ok done) (hrouted : done.outcome = .routed d)
    (hgrant : d.file = some grant) :
    ∃ before after stamp : String, stamp.length = 8 ∧
      (∀ c : Context, c.time = scene.now → (Template.compile Template.daySource).render c = stamp) ∧
      grant.path.fileName? = some (before ++ "_" ++ stamp ++ after) ∧ done.store.path = grant.path := by
  have hclaim : s.claim scene.occasion = (some grant, done.store) := by
    rcases (submit_eq_ok hsubmit).2 with ⟨hsuppressed, -, -⟩ | ⟨d', hrouted', hclaims, -⟩
    · rw [hsuppressed] at hrouted
      cases hrouted
    · obtain rfl := Outcome.routed.inj (hrouted'.symm.trans hrouted)
      rcases hclaims with hnone | hclaim
      · rw [hgrant] at hnone
        cases (Prod.mk.inj hnone).1
      · rw [← hclaim, hgrant]
  obtain ⟨hpath, before, after, hfile⟩ := Store.fileName?_claim hdated hclaim
  rw [hday] at hfile
  exact ⟨before, after, scene.now.date.stamp, Date.length_stamp hyear, fun c hc => Template.render_daySource hyear hc,
    hfile, hpath⟩

/-- East of universal time it is the second day already; the store was made on the first. -/
theorem submit_dated_east :
    let s := Store.initial ⟨⟨"/srv"⟩, ⟨0, 0, 0⟩⟩
    let scene : Scene := ⟨.console, ⟨43200, 0, 50400⟩, ⟨⟨"/srv"⟩, ⟨43200, 0, 50400⟩⟩⟩
    let o := { Options.none with writeToFile := some true }
    let l : Logger Unit := .ofSinks []
    s.path = ⟨"/srv/Logfile_19700101.log"⟩ ∧
    ∃ done d grant, l.submit s () scene "late" o = .ok done ∧ done.outcome = .routed d ∧ d.file = some grant ∧
      grant.path = ⟨"/srv/Logfile_19700102.log"⟩ ∧
      ∃ before after stamp : String, stamp.length = 8 ∧
        (∀ c : Context, c.time = scene.now → (Template.compile Template.daySource).render c = stamp) ∧
        grant.path.fileName? = some (before ++ "_" ++ stamp ++ after) ∧ done.store.path = grant.path := by
  intro s scene o l
  have hdated : s.config.file.includeDate = true := by decide
  have hday : scene.occasion.now.date = scene.now.date := rfl
  have hyear : 0 ≤ scene.now.date.year ∧ scene.now.date.year ≤ 9999 := by decide
  have hgranted : ((l.submit s () scene "late" o).toOption.bind fun done => done.outcome.decision?.bind (·.file)) =
      some ⟨⟨"/srv/Logfile_19700102.log"⟩, .overwrite⟩ := by decide +kernel
  refine ⟨by decide +kernel, ?_⟩
  cases hsubmit : l.submit s () scene "late" o with
  | error e =>
    rw [hsubmit] at hgranted
    cases hgranted
  | ok done =>
    rw [hsubmit] at hgranted
    replace hgranted : done.outcome.decision?.bind (·.file) = some _ := hgranted
    cases houtcome : done.outcome with
    | suppressed =>
      rw [houtcome] at hgranted
      cases hgranted
    | routed d =>
      rw [houtcome] at hgranted
      have hlands := submit_dated hdated hday hyear hsubmit houtcome hgranted
      exact ⟨done, d, _, rfl, houtcome, hgranted, rfl, hlands⟩

end Logger
end Logbook
