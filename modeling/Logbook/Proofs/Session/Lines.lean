import Logbook.Proofs.Session.Runs
import Logbook.Proofs.Session.Steps

/-! The lines of a file over a steady stretch of a session, whatever loggers wrote them. A path that was left is not
    come back to and no request starts its file over, so after the first grant of a path every later one goes to its
    end. Main statement: a file holds what it held before, unless the first grant empties it, and then one line for
    every decision that was granted its path, in the order of the messages. -/

namespace Logbook

/-- The lines of decisions, as bytes. -/
def linesOf (ds : List Decision) : ByteArray :=
  (String.join (ds.map fun d => d.text ++ "\n")).toUTF8

/-- The decisions among replies that were granted a path, in order. -/
def grantedTo (p : Path) (replies : List Reply) : List Decision :=
  (replies.filterMap Reply.decision?).filter fun d => d.file.map (·.path) = some p

@[simp] theorem linesOf_nil : linesOf [] = .empty := rfl

theorem linesOf_cons (d : Decision) (ds : List Decision) :
    linesOf (d :: ds) = (d.text ++ "\n").toUTF8 ++ linesOf ds := by
  simp [linesOf, String.join_cons]

section
variable {p : Path} {reply : Reply}

theorem grantedTo_cons_of_none (h : reply.decision?.bind (·.file) = none) (replies : List Reply) :
    grantedTo p (reply :: replies) = grantedTo p replies := by
  cases hd : reply.decision? with
  | none => simp [grantedTo, hd]
  | some d =>
    rw [hd, Option.bind_some] at h
    simp [grantedTo, hd, h]

theorem grantedTo_cons_of_eq {d : Decision} {grant : FileGrant} (hd : reply.decision? = some d)
    (hgrant : d.file = some grant) (h : grant.path = p) (replies : List Reply) :
    grantedTo p (reply :: replies) = d :: grantedTo p replies := by
  simp [grantedTo, hd, hgrant, h]

theorem grantedTo_cons_of_ne {d : Decision} {grant : FileGrant} (hd : reply.decision? = some d)
    (hgrant : d.file = some grant) (h : grant.path ≠ p) (replies : List Reply) :
    grantedTo p (reply :: replies) = grantedTo p replies := by
  simp [grantedTo, hd, hgrant, h]

end

namespace Session
variable {s : Session} {a : Action} {actions : List Action} {d : Decision} {grant : FileGrant} {p : Path}

/-! ### Files that have begun -/

/-- Path `p` was granted on some day, and is written or was left since. -/
structure Begun (p : Path) (s : Session) : Prop where
  day : ∃ day, day ≤ s.today ∧ p = s.pathOn day
  current : s.store.path = p ∧ s.store.written = true ∨ s.pathOn s.today ≠ p

theorem Writes.path_eq (h : s.Writes a d grant) (hs : s.Filing) : grant.path = s.pathOn s.today := by
  rw [(Store.claim_eq_some h.store).1]
  exact hs.store.renew_path s.occasion.now

theorem Writes.mode_eq (h : s.Writes a d grant) (hs : s.Filing) (hbegun : Begun grant.path s) :
    grant.mode = .append := by
  have htoday := h.path_eq hs
  obtain ⟨hcurrent, hwritten⟩ := hbegun.current.resolve_right fun hne => hne htoday.symm
  have hgrant := (Store.claim_eq_some h.store).1
  have hstill : (s.store.renew s.occasion).written = true := by
    rw [Store.renew_written, hwritten, hcurrent, hgrant, Path.sameSteps_self, Bool.and_self]
  rw [hgrant, hstill, Bool.not_true, Bool.and_false]
  rfl

theorem Writes.begun (h : s.Writes a d grant) (hs : s.Filing) (hstep : s.SteadyStep a) :
    Begun grant.path (s.step a).2 where
  day := by
    have htoday : (s.step a).2.today = s.today := by rw [today, today, h.occasion]
    exact ⟨s.today, Int.le_of_eq htoday.symm, by rw [h.path_eq hs, hstep.pathOn]⟩
  current := by
    obtain ⟨hgrant, hstore⟩ := Store.claim_eq_some h.store
    rw [hgrant, hstore]
    exact Or.inl ⟨rfl, rfl⟩

/-- A file that has begun stays so over a steady action. -/
theorem Begun.step (h : Begun p s) (hs : s.Filing) (hstep : s.SteadyStep a) : Begun p (s.step a).2 := by
  obtain ⟨day, hday, hp⟩ := h.day
  have hday' : ∃ day, day ≤ (s.step a).2.today ∧ p = (s.step a).2.pathOn day :=
    ⟨day, Int.le_trans hday hstep.days, by rw [hp, hstep.pathOn]⟩
  -- Once the path of today is another one, it stays so on all days to come.
  have hleft (hne : s.pathOn s.today ≠ p) : Begun p (s.step a).2 := by
    refine ⟨hday', Or.inr fun hback => hne ?_⟩
    rw [hstep.pathOn, hp] at hback
    rw [hp]
    exact logPath_between hday hstep.days hback.symm
  rcases h.current with ⟨hpath, hwritten⟩ | hne
  · rcases quiet_or_writes hs hstep with hquiet | ⟨d, grant, hwrites⟩
    · rcases hquiet.store with ⟨hpath', hwritten'⟩ | ⟨-, hpath', hwritten'⟩
      · exact ⟨hday', Or.inl ⟨hpath'.trans hpath, hwritten'.trans hwritten⟩⟩
      · by_cases hsame : s.pathOn s.today = p
        · refine ⟨hday', Or.inl ⟨hpath'.trans hsame, ?_⟩⟩
          rw [hwritten', hwritten, hsame, hpath, Path.sameSteps_self, Bool.and_self]
        · exact hleft hsame
    · by_cases hsame : grant.path = p
      · exact hsame ▸ hwrites.begun hs hstep
      · exact hleft (hwrites.path_eq hs ▸ hsame)
  · exact hleft hne

/-! ### Files over a run -/

theorem keeps_run (hs : s.Filing) (hrun : s.Steady actions) :
    s.world.files.Keeps (s.run actions).2.world.files := by
  induction actions generalizing s with
  | nil => exact .refl _
  | cons a actions ih =>
    obtain ⟨hstep, hrest⟩ := hrun
    have hlater := ih (hstep.filing hs) hrest
    rcases quiet_or_writes hs hstep with hquiet | ⟨d, grant, hwrites⟩
    · rw [← hquiet.files]
      exact hlater
    · obtain ⟨place, -, hwrote⟩ := hwrites.files
      exact hwrote.keeps.trans hlater

theorem Writes.content?_of_ne (h : s.Writes a d grant) (hs : s.Filing) {day : Int} (hp : p = s.pathOn day)
    (hne : grant.path ≠ p) {later : FileSystem} (hlater : (s.step a).2.world.files.Keeps later)
    {place : List String} (hplace : later.locate p = .ok place) :
    (s.step a).2.world.files.content? place = s.world.files.content? place := by
  obtain ⟨place', hplace', hwrote⟩ := h.files
  have hlast : grant.path.components.getLast? ≠ p.components.getLast? := by
    rw [hp, h.path_eq hs] at hne ⊢
    exact last_ne_of_logPath_ne hne
  exact hwrote.elsewhere place (FileSystem.place_ne (hlater.locate hplace') hplace hlast).symm

/-- A file that has begun gets one line at its end for every decision that is granted its path. -/
theorem lines_of_begun (hs : s.Filing) (hrun : s.Steady actions) (hbegun : Begun p s) {place : List String}
    {content : ByteArray} (hplace : s.world.files.locate p = .ok place)
    (hcontent : s.world.files.content? place = some content) :
    (s.run actions).2.world.files.content? place =
      some (content ++ linesOf (grantedTo p (s.run actions).1)) := by
  -- The induction is on the actions. A grant for the path goes to its end because the file has begun.
  induction actions generalizing s content with
  | nil => simpa [run, grantedTo] using hcontent
  | cons a actions ih =>
    obtain ⟨hstep, hrest⟩ := hrun
    have hs' := hstep.filing hs
    have hbegun' := hbegun.step hs hstep
    rw [run_cons_fst, run_cons_snd]
    rcases quiet_or_writes hs hstep with hquiet | ⟨d, grant, hwrites⟩
    · rw [grantedTo_cons_of_none hquiet.ungranted]
      exact ih hs' hrest hbegun' (by rw [hquiet.files]; exact hplace) (by rw [hquiet.files]; exact hcontent)
    · obtain ⟨place', hplace', hwrote⟩ := hwrites.files
      have hlater := hwrote.keeps.locate hplace
      by_cases hsame : grant.path = p
      · obtain rfl : place' = place := by
          rw [hsame, hlater] at hplace'
          exact (Except.ok.inj hplace').symm
        rw [grantedTo_cons_of_eq hwrites.decision hwrites.granted hsame, linesOf_cons, ← ByteArray.append_assoc]
        refine ih hs' hrest hbegun' hlater ?_
        rw [hwrote.here, hwrites.mode_eq hs (hsame ▸ hbegun), hcontent, Sink.lineAdded]
        rfl
      · obtain ⟨day, -, hp⟩ := hbegun.day
        rw [grantedTo_cons_of_ne hwrites.decision hwrites.granted hsame]
        exact ih hs' hrest hbegun' hlater
          ((hwrites.content?_of_ne hs hp hsame (.refl _) hlater).trans hcontent)

/-- Over a steady run, a file that is granted at all holds its first content, unless the first grant empties it, and
    then the lines of the decisions that were granted its path; the path is that of some day. -/
theorem content?_run (hs : s.Filing) (hrun : s.Steady actions) {first : Decision} {rest : List Decision}
    (hgranted : grantedTo p (s.run actions).1 = first :: rest) :
    ∃ day place mode, p = s.pathOn day ∧ (s.run actions).2.world.files.locate p = .ok place ∧
      first.file = some ⟨p, mode⟩ ∧ (s.run actions).2.world.files.content? place =
        some ((if mode = .overwrite then .empty else (s.world.files.content? place).getD .empty) ++
          linesOf (first :: rest)) := by
  -- Before its first grant the path may be one of days to come, so the day is part of what the induction finds out:
  -- a grant for another path of the same name leaves the file alone.
  induction actions generalizing s with
  | nil => cases hgranted
  | cons a actions ih =>
    obtain ⟨hstep, hrest⟩ := hrun
    have hs' := hstep.filing hs
    rw [run_cons_fst] at hgranted
    rw [run_cons_snd]
    rcases quiet_or_writes hs hstep with hquiet | ⟨d, grant, hwrites⟩
    · rw [grantedTo_cons_of_none hquiet.ungranted] at hgranted
      have h := ih hs' hrest hgranted
      simpa only [hstep.pathOn, hquiet.files] using h
    · by_cases hsame : grant.path = p
      · rw [grantedTo_cons_of_eq hwrites.decision hwrites.granted hsame] at hgranted
        obtain ⟨rfl, rfl⟩ := List.cons.inj hgranted
        obtain ⟨place, hplace, hwrote⟩ := hwrites.files
        subst hsame
        refine ⟨s.today, place, grant.mode, hwrites.path_eq hs, (keeps_run hs' hrest).locate hplace,
          hwrites.granted, ?_⟩
        rw [lines_of_begun hs' hrest (hwrites.begun hs hstep) hplace hwrote.here, linesOf_cons, Sink.lineAdded,
          ByteArray.append_assoc]
      · rw [grantedTo_cons_of_ne hwrites.decision hwrites.granted hsame] at hgranted
        obtain ⟨day, place, mode, hp, hplace, hfirst, hcontent⟩ := ih hs' hrest hgranted
        rw [hstep.pathOn] at hp
        refine ⟨day, place, mode, hp, hplace, hfirst, ?_⟩
        rw [hcontent, hwrites.content?_of_ne hs hp hsame (keeps_run hs' hrest) hplace]

/-- No line is lost, doubled or moved: after a steady run of loggers that write to files through one store, a file
    that was granted at all reads as what it held at first, unless the first grant emptied it, and then one line for
    every decision that was granted its path, in the order of the messages. -/
theorem read_run (hs : s.Filing) (hrun : s.Steady actions) (p : Path) {first : Decision} {rest : List Decision}
    (hgranted : grantedTo p (s.run actions).1 = first :: rest) :
    ∃ place mode, (s.run actions).2.world.files.locate p = .ok place ∧ first.file = some ⟨p, mode⟩ ∧
      (s.run actions).2.world.files.read p =
        .ok ((if mode = .append then (s.world.files.content? place).getD .empty else .empty) ++
          (String.join ((first :: rest).map fun d => d.text ++ "\n")).toUTF8) := by
  obtain ⟨-, place, mode, -, hplace, hfirst, hcontent⟩ := content?_run hs hrun hgranted
  refine ⟨place, mode, hplace, hfirst, ?_⟩
  rw [FileSystem.read_of_content? hplace hcontent, linesOf]
  cases mode <;> rfl

/-- Two loggers of a new store write one line each to its file, and a reset between them changes nothing. -/
theorem read_run_two :
    let occasion : Occasion := ⟨⟨"/srv"⟩, ⟨0, 0, 0⟩⟩
    let s : Session := {
      store := .initial occasion, source := .given, loggers := [.ofSinks [.file true], .ofSinks [.file false]],
      templates := default, world := ⟨.empty ["srv"], ⟨"", "", true⟩, [], []⟩, resolver := .console occasion.base,
      clock := ⟨occasion.now, false⟩, loggerClock := ⟨occasion.now, false⟩, program := .console occasion.base,
      systemTime := occasion.now, asked := 0 }
    let o : Options := { Options.none with template := some "\x7bMessage\x7d", writeToFile := some true }
    let files := (s.run [.submit 0 "one" o, .reset, .submit 1 "two" o]).2.world.files
    files.read ⟨"/srv/Logfile_19700101.log"⟩ = .ok "one\ntwo\n".toUTF8 := by
  intro occasion s o files
  have hs : s.Filing := ⟨by simp [s, Logger.ofSinks], ⟨occasion.now, [], rfl⟩⟩
  have hrun : s.Steady [.submit 0 "one" o, .reset, .submit 1 "two" o] := by decide +kernel
  have hgranted : grantedTo ⟨"/srv/Logfile_19700101.log"⟩ (s.run [.submit 0 "one" o, .reset, .submit 1 "two" o]).1 =
      [⟨"one", .host, some .cyan, .information, some ⟨⟨"/srv/Logfile_19700101.log"⟩, .overwrite⟩⟩,
       ⟨"two", .host, some .cyan, .information, some ⟨⟨"/srv/Logfile_19700101.log"⟩, .append⟩⟩] := by decide +kernel
  obtain ⟨place, mode, -, hmode, hread⟩ := read_run hs hrun _ hgranted
  obtain rfl := (FileGrant.mk.inj (Option.some.inj hmode)).2
  exact hread

end Session
end Logbook
