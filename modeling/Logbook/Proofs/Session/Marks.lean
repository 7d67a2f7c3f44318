import Mathlib.Data.List.Induction
import Logbook.Proofs.Session.Runs
import Logbook.Proofs.Session.Steps
import Logbook.Proofs.Store.Epochs

/-! When the file counts as written. It does from the grant of a line on, and nobody tells the store whether a sink then
    wrote that line. A line that is granted and not written uses up the leave to empty the file, and what the file held
    before stays in front of the lines to come. Main statement: that the file counts as written only after a file sink
    wrote to it holds along a run exactly if a file sink writes every line from whose grant on the file counts so. -/

namespace Logbook
namespace Session

/-- What an action submits, and the number of the logger it submits it to. -/
def submission? (s : Session) : Action → Option (Nat × String × Options)
  | .submit i message o | .log i message o => some (i, message, o)
  | .logHere i message severity place line =>
    if s.isEnabled i severity then some (i, message, .ofCaller severity (.ofLocation place line)) else none
  | _ => none

/-- With this action a file sink writes the line of decision `d` as it was granted, whatever sinks come before it and
    after it. The world right after that is `w`. -/
inductive Fills (s : Session) (a : Action) (d : Decision) (grant : FileGrant) (w : World) : Prop where
  | intro {i : Nat} {message : String} {o : Options} {logger : Logger World} {earlier later : List (Sink World)}
      {makeDirectories : Bool} (submission : s.submission? a = some (i, message, o))
      (addressee : s.loggers[i]? = some logger) (routed : (s.submit i message o).1 = .ok (.routed d))
      (granted : d.file = some grant) (sinks : logger.sinks = earlier ++ Sink.file makeDirectories :: later)
      (taken : (Sink.file makeDirectories).write d (Sink.deliver d earlier s.world).2 = (.taken, w))

end Session

namespace Moment

def later (m : Moment) : Session :=
  (m.session.step m.action).2

/-- The settings of the log file change, or its path leads elsewhere afterwards. -/
def Restarts (m : Moment) : Prop :=
  m.session.store.config.sameFile m.later.store.config = false ∨
    m.later.store.path.sameSteps m.session.store.path = false

def Fills (m : Moment) : Prop :=
  ∃ d grant w, m.session.Fills m.action d grant w

/-- From the action on the file counts as written; before, it did not, or it was not this file. -/
def Marks (m : Moment) : Prop :=
  m.later.store.written = true ∧ (m.Restarts ∨ m.session.store.written = false)

end Moment

namespace Session

/-- A file sink has written to the file since it last became the log file. -/
def FilledSince (ms : List Moment) : Prop :=
  Since Moment.Fills Moment.Restarts ms

/-- All along a run the file counts as written only if a file sink has written to it. As long as none has, the next
    line that is granted empties the file, if the configuration says so; and the first line that a file sink writes
    to the file then is all that it holds. -/
def CountsWrites (s : Session) (actions : List Action) : Prop :=
  ∀ past rest, actions = past ++ rest →
    let now := (s.run past).2
    (¬FilledSince (s.moments past) → now.store.written = false ∧
      ∀ o grant, now.store.config.file.overwrite = true → (now.store.claim o).1 = some grant →
        grant.mode = .overwrite) ∧
    ∀ a d grant w, now.Fills a d grant w → now.store.config.file.overwrite = true →
      ¬FilledSince (s.moments past) ∨ Moment.Restarts ⟨now, a⟩ →
        w.files.read grant.path = .ok (d.text ++ "\n").toUTF8

/-! ### What a file sink writes -/

section
variable {s : Session} {a : Action} {d : Decision} {grant : FileGrant} {w : World}

theorem step_of_submission {i : Nat} {message : String} {o : Options} (h : s.submission? a = some (i, message, o)) :
    (s.step a).2 = (s.submit i message o).2 := by
  cases a with
  | submit j text p =>
    cases h
    rfl
  | log j text p =>
    cases h
    rfl
  | logHere j text severity place line =>
    obtain ⟨henabled, h⟩ := Option.ite_none_right_eq_some.mp h
    cases h
    rw [step, if_pos henabled]
  | _ => cases h

theorem Fills.claim (h : s.Fills a d grant w) : s.store.claim s.occasion = (some grant, (s.step a).2.store) := by
  obtain ⟨hsubmission, -, hrouted, hgranted, -, -⟩ := h
  rw [step_of_submission hsubmission]
  rcases s.submit_cases _ _ _ with ⟨answer, hnone, hsubmit⟩ | ⟨logger, done, -, hdone, hsubmit⟩
  · rw [hsubmit] at hrouted
    rw [show answer = .ok (.routed d) from hrouted] at hnone
    cases hnone
  · rw [hsubmit] at hrouted ⊢
    have hd : done.outcome = .routed d := Except.ok.inj hrouted
    rcases (Logger.submit_eq_ok hdone).2 with ⟨hsuppressed, -, -⟩ | ⟨d', hd', hclaims, -⟩
    · rw [hd] at hsuppressed
      cases hsuppressed
    · obtain rfl : d' = d := Outcome.routed.inj (hd'.symm.trans hd)
      rw [Decision.Claims, occasion_scene, hgranted] at hclaims
      rcases hclaims with hnone | hclaim
      · cases (Prod.mk.inj hnone).1
      · exact hclaim.symm

theorem Fills.written (h : s.Fills a d grant w) : (s.step a).2.store.written = true := by
  rw [(Store.claim_eq_some h.claim).2]

theorem Fills.mode_eq (h : s.Fills a d grant w) (hoverwrite : s.store.config.file.overwrite = true)
    (hfirst : Moment.Restarts ⟨s, a⟩ ∨ s.store.written = false) : grant.mode = .overwrite := by
  have hgrant : (s.store.claim s.occasion).1 = some grant := by rw [h.claim]
  rw [Store.mode_claim hgrant, Store.startsEpoch_claim]
  refine ⟨hoverwrite, hfirst.imp (fun hrestarts => ?_) (fun hwritten => by simp [hwritten])⟩
  have hstore : (s.step a).2.store = (s.store.claim s.occasion).2 := by rw [h.claim]
  rw [Moment.Restarts, Moment.later, hstore, Store.claim_config, Store.claim_path, Store.sameFile_self] at hrestarts
  exact hrestarts.resolve_left fun hfalse => by cases hfalse

/-- A line that empties the file is all that the file holds. -/
theorem Fills.read_eq (h : s.Fills a d grant w) (hmode : grant.mode = .overwrite) :
    w.files.read grant.path = .ok (d.text ++ "\n").toUTF8 := by
  obtain ⟨-, -, -, hgranted, -, htaken⟩ := h
  have hwritten := files_of_taken (congrArg Prod.fst htaken)
  simp only [Sink.deliver, htaken] at hwritten
  obtain ⟨place, hplace, hwrote⟩ := Sink.writeDecision_eq_none hgranted hwritten
  rw [FileSystem.read_of_content? hplace hwrote.here, Sink.lineAdded, if_pos hmode, ByteArray.empty_append]

end

/-! ### What an action keeps -/

/-- A file that counts as written does so until it starts over. -/
theorem written_step {m : Moment} (h : m.session.store.written = true) (hsame : ¬m.Restarts) :
    m.later.store.written = true := by
  rcases m.session.store_step m.action with hstore | ⟨r, hstore⟩
  · rw [Moment.later, hstore, h]
  · have hafter : m.later.store = (m.session.store.entry m.session.occasion r).after := hstore
    rw [hafter]
    refine Store.entry_written.mpr (Or.inr ⟨?_, h⟩)
    rintro ⟨-, hfile | ⟨-, hpath⟩⟩
    · exact hsame (Or.inl (by rw [hafter]; exact Bool.not_eq_true _ ▸ hfile))
    · exact hsame (Or.inr (by rw [hafter]; exact Bool.not_eq_true _ ▸ hpath))

theorem run_concat_snd (s : Session) (past : List Action) (a : Action) :
    (s.run (past ++ [a])).2 = Moment.later ⟨(s.run past).2, a⟩ := by
  rw [run_append]
  rfl

theorem filledSince_concat {s : Session} {past : List Action} {a : Action} :
    FilledSince (s.moments (past ++ [a])) ↔
      Moment.Fills ⟨(s.run past).2, a⟩ ∨ ¬Moment.Restarts ⟨(s.run past).2, a⟩ ∧ FilledSince (s.moments past) := by
  rw [moments_append]
  exact since_concat

/-! ### Runs -/

theorem written_of_filledSince {s : Session} {actions : List Action} (h : FilledSince (s.moments actions)) :
    (s.run actions).2.store.written = true := by
  induction actions using List.reverseRecOn with
  | nil => exact absurd h not_since_nil
  | append_singleton past a ih =>
    rw [run_concat_snd]
    rcases filledSince_concat.mp h with ⟨d, grant, w, hfills⟩ | ⟨hsame, hpast⟩
    · exact hfills.written
    · exact written_step (ih hpast) hsame

theorem filledSince_of_written {s : Session} (hs : s.store.written = false) {actions : List Action}
    (hmarks : ∀ m ∈ s.moments actions, m.Marks → m.Fills) (h : (s.run actions).2.store.written = true) :
    FilledSince (s.moments actions) := by
  -- The induction is on the last action: either the file counts as written from there on, or it already did.
  induction actions using List.reverseRecOn with
  | nil =>
    rw [show (s.run []).2 = s from rfl, hs] at h
    cases h
  | append_singleton past a ih =>
    rw [moments_append] at hmarks
    rw [run_concat_snd] at h
    rw [filledSince_concat]
    by_cases hbefore : Moment.Restarts ⟨(s.run past).2, a⟩ ∨ (s.run past).2.store.written = false
    · exact Or.inl (hmarks _ (List.mem_append_right _ (List.mem_singleton_self _)) ⟨h, hbefore⟩)
    · obtain ⟨hsame, hwritten⟩ := not_or.mp hbefore
      have hpast := ih (fun m hm => hmarks m (List.mem_append_left _ hm)) (by simpa using hwritten)
      exact Or.inr ⟨hsame, hpast⟩

/-- Along a run of a session whose file does not count as written, it counts so only after a file sink wrote to it
    exactly if, whenever it begins to count so, a file sink writes the line that was granted. -/
theorem countsWrites_iff {s : Session} (hs : s.store.written = false) (actions : List Action) :
    s.CountsWrites actions ↔ ∀ m ∈ s.moments actions, m.Marks → m.Fills := by
  constructor
  · rintro h m hm ⟨hwritten, hfirst⟩
    obtain ⟨past, rest, rfl, hsession⟩ := mem_moments hm
    by_contra hunfilled
    have hm : (⟨(s.run past).2, m.action⟩ : Moment) = m := by rw [← hsession]
    have hnot : ¬FilledSince (s.moments (past ++ [m.action])) := by
      rw [filledSince_concat, hm]
      rintro (hfills | ⟨hsame, hpast⟩)
      · exact hunfilled hfills
      · have hbefore := hfirst.resolve_left hsame
        rw [hsession, written_of_filledSince hpast] at hbefore
        cases hbefore
    have hlater := ((h (past ++ [m.action]) rest (by simp)).1 hnot).1
    rw [run_concat_snd, hm, hwritten] at hlater
    cases hlater
  · rintro hmarks past rest rfl
    rw [moments_append] at hmarks
    have hpast : ∀ m ∈ s.moments past, m.Marks → m.Fills := fun m hm => hmarks m (List.mem_append_left _ hm)
    have hwritten : ¬FilledSince (s.moments past) → (s.run past).2.store.written = false := fun hnot =>
      Bool.eq_false_iff.mpr fun h => hnot (filledSince_of_written hs hpast h)
    refine ⟨fun hnot => ⟨hwritten hnot, fun o grant hoverwrite hgrant => ?_⟩,
      fun a d grant w hfills hoverwrite hfirst => ?_⟩
    · rw [Store.mode_claim hgrant]
      exact ⟨hoverwrite, Or.inr (by simp [hwritten hnot])⟩
    · exact hfills.read_eq (hfills.mode_eq hoverwrite (hfirst.symm.imp_right hwritten))

/-- The first line of a new store is written by the one sink that it is given to. -/
theorem countsWrites_iff_file :
    let occasion : Occasion := ⟨⟨"/srv"⟩, ⟨0, 0, 0⟩⟩
    let s : Session := {
      store := .initial occasion, source := .given, loggers := [.ofSinks [.file true]], templates := default,
      world := ⟨.empty ["srv"], ⟨"", "", true⟩, [], []⟩, resolver := .console occasion.base,
      clock := ⟨occasion.now, false⟩, loggerClock := ⟨occasion.now, false⟩, program := .console occasion.base,
      systemTime := occasion.now, asked := 0 }
    let o : Options := { Options.none with template := some "\x7bMessage\x7d", writeToFile := some true }
    s.CountsWrites [.submit 0 "kept" o] := by
  intro occasion s o
  refine (countsWrites_iff rfl _).mpr fun m hm _ => ?_
  obtain rfl : m = ⟨s, .submit 0 "kept" o⟩ := List.mem_singleton.mp hm
  let d : Decision :=
    ⟨"kept", .host, some .cyan, .information, some ⟨⟨"/srv/Logfile_19700101.log"⟩, .overwrite⟩⟩
  have hrouted : (s.submit 0 "kept" o).1 = .ok (.routed d) := by decide +kernel
  have htaken : ((Sink.file true).write d s.world).1 = .taken := by decide +kernel
  exact ⟨d, _, _, .intro rfl rfl hrouted rfl (List.nil_append _).symm (Prod.ext htaken rfl)⟩

/-- A logger without sinks is granted the first line; the file then counts as written, and the line of the next logger
    comes after what the file held before. -/
theorem not_countsWrites_without_sinks :
    let occasion : Occasion := ⟨⟨"/srv"⟩, ⟨0, 0, 0⟩⟩
    let files := (FileSystem.empty ["srv"]).put ["srv", "Logfile_19700101.log"] (.file "old\n".toUTF8)
    let s : Session := {
      store := .initial occasion, source := .given, loggers := [.ofSinks [], .ofSinks [.file true]],
      templates := default, world := ⟨files, ⟨"", "", true⟩, [], []⟩, resolver := .console occasion.base,
      clock := ⟨occasion.now, false⟩, loggerClock := ⟨occasion.now, false⟩, program := .console occasion.base,
      systemTime := occasion.now, asked := 0 }
    let o : Options := { Options.none with template := some "\x7bMessage\x7d", writeToFile := some true }
    ¬s.CountsWrites [.submit 0 "lost" o] ∧
      (s.run [.submit 0 "lost" o, .submit 1 "kept" o]).2.world.files.read ⟨"/srv/Logfile_19700101.log"⟩ =
        .ok "old\nkept\n".toUTF8 := by
  intro occasion files s o
  refine ⟨fun h => ?_, by decide +kernel⟩
  have hnot : ¬FilledSince (s.moments [.submit 0 "lost" o]) := by
    rintro ⟨past, m, later, hmoments, ⟨d, grant, w, hfills⟩, -⟩
    obtain rfl : m = ⟨s, .submit 0 "lost" o⟩ := by
      have hm : m ∈ s.moments [.submit 0 "lost" o] := by simp [hmoments]
      exact List.mem_singleton.mp hm
    obtain ⟨hsubmission, haddressee, -, -, hsinks, -⟩ := hfills
    cases hsubmission
    cases haddressee
    simp [Logger.ofSinks] at hsinks
  have hwritten := ((h [.submit 0 "lost" o] [] rfl).1 hnot).1
  have hmarked : (s.run [.submit 0 "lost" o]).2.store.written = true := by decide +kernel
  rw [hmarked] at hwritten
  cases hwritten

end Session
end Logbook
