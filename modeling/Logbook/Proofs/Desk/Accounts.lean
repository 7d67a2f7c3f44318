import Mathlib.Data.List.Basic
import Logbook.Proofs.Desk.Runs

/-! What the loggers of a desk can account for. A desk is run once more with a list next to its world in which every
    write of a sink is noted. Main statement: nothing else changes by that, the sinks of a logger are written to once
    for every decision it routed, in order, whether or not they take it, and its counters say how many messages,
    decisions, files and failures there were. -/

namespace Logbook

/-! ### Notes -/

/-- A sink was given a decision: the number of its logger, its own number there, and how it took the decision. -/
structure Write where
  logger : Nat
  sink : Nat
  decision : Decision
  reaction : Reaction

variable {ω : Type}

/-- The sink, which is sink number `j` of logger number `i`, with its writes noted. -/
def Sink.noted (i j : Nat) (sink : Sink ω) : Sink (ω × List Write) where
  name := sink.name
  write d w := let (reaction, after) := sink.write d w.1; (reaction, after, w.2 ++ [⟨i, j, d, reaction⟩])
  flush w := let (r, after) := sink.flush w.1; (r, after, w.2)

def Logger.noted (l : Logger ω) (i : Nat) : Logger (ω × List Write) :=
  ⟨l.sinks.mapIdx (Sink.noted i), l.templates, l.metrics⟩

/-- The desk with the writes of all its sinks noted at the end of a list. -/
def Desk.noted (desk : Desk ω) (notes : List Write) : Desk (ω × List Write) :=
  ⟨desk.store, desk.routers, fun i => (desk.loggers i).noted i, (desk.world, notes)⟩

/-! ### Counts -/

/-- The decision, if a message was routed. -/
@[simp]
def decisionOf : Except Error Outcome → Option Decision
  | .ok (.routed d) => some d
  | .ok .suppressed => none
  | .error _ => none

@[simp]
def isSuppressed : Except Error Outcome → Bool
  | .ok (.routed _) => false
  | .ok .suppressed => true
  | .error _ => false

/-- How often each counter is counted up. -/
structure Tally where
  suppressed : Nat
  routed : Nat
  fileWrites : Nat
  sinkFailures : Nat

/-- The tally of a logger whose calls had these outcomes and whose sinks made these writes. -/
def Tally.of (outcomes : List (Except Error Outcome)) (writes : List Write) : Tally :=
  let decisions := outcomes.filterMap decisionOf
  ⟨outcomes.countP isSuppressed, decisions.length, decisions.countP (·.file.isSome),
    writes.countP (·.reaction.isFailure)⟩

def Metrics.plus (m : Metrics) (t : Tally) : Metrics :=
  ⟨m.suppressed + .ofNat t.suppressed, m.routed + .ofNat t.routed, m.fileWrites + .ofNat t.fileWrites,
    m.sinkFailures + .ofNat t.sinkFailures⟩

namespace Metrics

theorem plus_nil (m : Metrics) : m.plus (.of [] []) = m := by
  simp [plus, Tally.of]

theorem plus_append (m : Metrics) (outcomes outcomes' : List (Except Error Outcome)) (writes writes' : List Write) :
    m.plus (.of (outcomes ++ outcomes') (writes ++ writes')) =
      (m.plus (.of outcomes writes)).plus (.of outcomes' writes') := by
  simp [plus, Tally.of, UInt64.ofNat_add, UInt64.add_assoc]

/-- A counter that starts from zero shows what was counted, as long as that fits. -/
theorem toNat_counted {n : Nat} (h : n < UInt64.size) : ((0 : UInt64) + .ofNat n).toNat = n := by
  rw [UInt64.zero_add, UInt64.toNat_ofNat_of_lt' h]

theorem repeat_recordSinkFailure (n : Nat) (m : Metrics) :
    n.repeat recordSinkFailure m = { m with sinkFailures := m.sinkFailures + .ofNat n } := by
  induction n with
  | zero => simp [Nat.repeat]
  | succ n ih => simp [Nat.repeat, ih, recordSinkFailure, UInt64.ofNat_add, UInt64.add_assoc]

theorem recordDecision_eq (m : Metrics) (d : Decision) (writes : List Write) :
    m.recordDecision d (writes.countP (·.reaction.isFailure)) = m.plus (.of [.ok (.routed d)] writes) := by
  rw [recordDecision, repeat_recordSinkFailure]
  cases hfile : d.file <;>
    simp [plus, Tally.of, recordRouted, recordFileWrite, hfile]

theorem recordSuppressed_eq (m : Metrics) : m.recordSuppressed = m.plus (.of [.ok .suppressed] []) := by
  simp [plus, Tally.of, recordSuppressed, List.filterMap_cons]

end Metrics

/-- These writes are the ones that a logger, which was `l` before and is `later` now, owes for calls with these
    outcomes: one for every decision and sink, in order. The counters say the same. -/
structure Accounts (l later : Logger ω) (outcomes : List (Except Error Outcome)) (writes : List Write) : Prop where
  sinks : later.sinks = l.sinks
  order : writes.map (fun write => (write.decision, write.sink)) =
    (outcomes.filterMap decisionOf).flatMap fun d => (List.range l.sinks.length).map (d, ·)
  counters : later.metrics = l.metrics.plus (.of outcomes writes)

namespace Accounts

theorem nil (l : Logger ω) : Accounts l l [] [] :=
  ⟨rfl, rfl, l.metrics.plus_nil.symm⟩

theorem refused (l : Logger ω) (e : Error) : Accounts l l [.error e] [] :=
  ⟨rfl, rfl, l.metrics.plus_nil.symm⟩

theorem append {l m later : Logger ω} {outcomes outcomes' : List (Except Error Outcome)} {writes writes' : List Write}
    (h : Accounts l m outcomes writes) (h' : Accounts m later outcomes' writes') :
    Accounts l later (outcomes ++ outcomes') (writes ++ writes') where
  sinks := h'.sinks.trans h.sinks
  order := by rw [List.map_append, h.order, h'.order, h.sinks, List.filterMap_append, List.flatMap_append]
  counters := by rw [h'.counters, h.counters, Metrics.plus_append]

end Accounts

/-! ### One call -/

theorem Sink.deliver_noted (i k : Nat) (d : Decision) (sinks : List (Sink ω)) (w : ω) (notes : List Write) :
    ∃ writes,
      deliver d (sinks.mapIdx fun j => noted i (k + j)) (w, notes) =
        ((deliver d sinks w).1, (deliver d sinks w).2, notes ++ writes) ∧
      (∀ write ∈ writes, write.logger = i) ∧
      writes.map (fun write => (write.decision, write.sink)) = (List.range' k sinks.length).map (d, ·) ∧
      writes.countP (·.reaction.isFailure) = (deliver d sinks w).1 := by
  induction sinks generalizing k w notes with
  | nil => exact ⟨[], by simp [deliver]⟩
  | cons sink sinks ih =>
    obtain ⟨writes, hdeliver, hlogger, hmap, hfailures⟩ :=
      ih (k + 1) (sink.write d w).2 (notes ++ [⟨i, k, d, (sink.write d w).1⟩])
    refine ⟨⟨i, k, d, (sink.write d w).1⟩ :: writes, ?_, ?_, ?_, ?_⟩
    · simp only [Nat.add_assoc, Nat.add_comm 1] at hdeliver
      simp [List.mapIdx_cons, deliver, noted, hdeliver]
    · simpa using hlogger
    · simp [List.range'_succ, hmap]
    · simp [deliver, List.countP_cons, hfailures]

/-- A logger whose sinks are noted does what it does without, and the notes account for that. -/
theorem Logger.submit_noted (l : Logger ω) (i : Nat) (s : Store) (w : ω) (notes : List Write) (scene : Scene)
    (message : String) (o : Options) :
    (∃ e, l.submit s w scene message o = .error e ∧ (l.noted i).submit s (w, notes) scene message o = .error e) ∨
    ∃ done writes, l.submit s w scene message o = .ok done ∧
      (l.noted i).submit s (w, notes) scene message o =
        .ok ⟨done.outcome, done.logger.noted i, done.store, (done.world, notes ++ writes), done.asked⟩ ∧
      (∀ write ∈ writes, write.logger = i) ∧ Accounts l done.logger [.ok done.outcome] writes := by
  unfold submit
  simp only [noted]
  rcases Routing.submit s l.templates scene message o with e | ⟨outcome, store, templates, asked⟩
  · exact Or.inl ⟨e, rfl, rfl⟩
  · right
    cases outcome with
    | suppressed =>
      refine ⟨_, [], rfl, ?_, by simp, ⟨rfl, rfl, Metrics.recordSuppressed_eq l.metrics⟩⟩
      simp [bind, Except.bind, pure, Except.pure]
    | routed d =>
      obtain ⟨writes, hdeliver, hlogger, hmap, hfailures⟩ := Sink.deliver_noted i 0 d l.sinks w notes
      simp only [Nat.zero_add] at hdeliver
      refine ⟨_, writes, rfl, ?_, hlogger, ⟨rfl, ?_, ?_⟩⟩
      · simp [bind, Except.bind, pure, Except.pure, hdeliver]
      · rw [hmap, ← List.range_eq_range']
        simp
      · rw [← Metrics.recordDecision_eq, hfailures]

/-! ### Runs -/

namespace Desk

theorem noted_loggers_update (loggers : Nat → Logger ω) (i : Nat) (l : Logger ω) :
    (fun k => (Function.update loggers i l k).noted k) =
      Function.update (fun k => (loggers k).noted k) i (l.noted i) := by
  funext k
  by_cases hk : k = i
  · subst hk
    simp
  · simp [hk]

theorem step_noted (desk : Desk ω) (notes : List Write) (t : Turn) :
    ∃ writes, (desk.noted notes).step t = ((desk.step t).1, (desk.step t).2.noted (notes ++ writes)) ∧
      ∀ i, Accounts (desk.loggers i) ((desk.step t).2.loggers i) (desk.outcomes i [t])
        (writes.filter (·.logger = i)) := by
  obtain ⟨scene, addressee, matter⟩ := t
  cases matter with
  | request r =>
    refine ⟨[], by simp [step, noted], fun i => ?_⟩
    rw [outcomes_of_request]
    exact .nil _
  | call c =>
    cases addressee with
    | router k =>
      refine ⟨[], ?_, fun i => ?_⟩
      · simp only [step, call, noted]
        cases Routing.submit desk.store (desk.routers k) scene c.message c.options <;> simp
      · rw [outcomes_of_router]
        simp only [step, call]
        cases Routing.submit desk.store (desk.routers k) scene c.message c.options <;> exact .nil _
    | logger k =>
      rcases (desk.loggers k).submit_noted k desk.store desk.world notes scene c.message c.options with
        ⟨e, hsubmit, hnoted⟩ | ⟨done, writes, hsubmit, hnoted, hlogger, haccounts⟩
      · have hstep := step_of_refused hsubmit
        refine ⟨[], ?_, fun i => ?_⟩
        · rw [hstep, List.append_nil]
          exact step_of_refused hnoted
        · rw [outcomes_of_logger (congrArg Prod.fst hstep), hstep]
          split
          · exact .refused _ e
          · exact .nil _
      · have hstep := step_of_logged hsubmit
        refine ⟨writes, ?_, fun i => ?_⟩
        · have hboth : (desk.noted notes).step ⟨scene, .logger k, .call c⟩ = _ := step_of_logged hnoted
          rw [hstep, hboth]
          simp only [noted, noted_loggers_update]
        · rw [outcomes_of_logger (congrArg Prod.fst hstep), hstep]
          by_cases hi : k = i
          · subst hi
            have hall : writes.filter (·.logger = k) = writes := by simpa using hlogger
            rw [if_pos rfl, hall]
            simpa using haccounts
          · have hnone : writes.filter (·.logger = i) = [] := by
              simp only [List.filter_eq_nil_iff, decide_eq_true_eq]
              exact fun write hwrite => (hlogger write hwrite).symm ▸ hi
            rw [if_neg hi, hnone]
            simpa [Ne.symm hi] using Accounts.nil (desk.loggers i)

/-- A desk whose sinks are noted does what it does without, and the notes account for what every logger does. -/
theorem run_noted (desk : Desk ω) (notes : List Write) (turns : List Turn) :
    ∃ writes, (desk.noted notes).history turns = desk.history turns ∧
      (desk.noted notes).run turns = (desk.run turns).noted (notes ++ writes) ∧
      ∀ i, Accounts (desk.loggers i) ((desk.run turns).loggers i) (desk.outcomes i turns)
        (writes.filter (·.logger = i)) := by
  induction turns generalizing desk notes with
  | nil => exact ⟨[], rfl, by simp [run], fun i => .nil _⟩
  | cons t turns ih =>
    obtain ⟨writes, hstep, hone⟩ := desk.step_noted notes t
    obtain ⟨writes', hhistory, hrun, hmany⟩ := ih (desk.step t).2 (notes ++ writes)
    refine ⟨writes ++ writes', ?_, ?_, fun i => ?_⟩
    · rw [history, hstep, hhistory, history]
    · rw [run, hstep, hrun, run, List.append_assoc]
    · rw [outcomes_cons, List.filter_append, run]
      exact (hone i).append (hmany i)

end Desk

/-! ### Memories -/

/-- The sink takes every decision and adds it to those that `held` shows, if there is a place for them. -/
def Sink.Remembers (sink : Sink ω) (held : ω → Option (List Decision)) : Prop :=
  ∀ d w, (sink.write d w).1 = .taken ∧ held (sink.write d w).2 = (held w).map (· ++ [d])

/-- The sink leaves the decisions alone that `held` shows. -/
def Sink.Spares (sink : Sink ω) (held : ω → Option (List Decision)) : Prop :=
  ∀ d w, held (sink.write d w).2 = held w

theorem Sink.remembers_memory (slot : Nat) : (memory slot).Remembers fun w => w.memories[slot]? :=
  fun d w => ⟨rfl, by simp [memory]⟩

section
variable {held : ω → Option (List Decision)}

theorem Sink.deliver_of_spares {sinks : List (Sink ω)} (h : ∀ sink ∈ sinks, sink.Spares held) (d : Decision) (w : ω) :
    held (deliver d sinks w).2 = held w := by
  induction sinks generalizing w with
  | nil => rfl
  | cons sink sinks ih =>
    obtain ⟨hsink, hsinks⟩ := List.forall_mem_cons.mp h
    rw [deliver]
    exact (ih hsinks _).trans (hsink d w)

theorem Sink.deliver_of_remembers {earlier later : List (Sink ω)} {sink : Sink ω} (h : sink.Remembers held)
    (hspares : ∀ other ∈ earlier ++ later, other.Spares held) (d : Decision) (w : ω) :
    held (deliver d (earlier ++ sink :: later) w).2 = (held w).map (· ++ [d]) := by
  induction earlier generalizing w with
  | nil =>
    rw [List.nil_append, deliver]
    exact (deliver_of_spares hspares d _).trans (h d w).2
  | cons other earlier ih =>
    obtain ⟨hother, hspares⟩ := List.forall_mem_cons.mp hspares
    rw [List.cons_append, deliver, ← hother d w]
    exact ih hspares _

end

namespace Desk

/-- One sink of logger number `i` remembers decisions where `held` shows them, and no other sink of the desk touches
    those. -/
structure HasMemory (desk : Desk ω) (i : Nat) (held : ω → Option (List Decision)) : Prop where
  sink : ∃ earlier sink later, (desk.loggers i).sinks = earlier ++ sink :: later ∧ sink.Remembers held ∧
    ∀ other ∈ earlier ++ later, other.Spares held
  others : ∀ k, k ≠ i → ∀ other ∈ (desk.loggers k).sinks, other.Spares held

theorem step_sinks (desk : Desk ω) (t : Turn) (i : Nat) :
    ((desk.step t).2.loggers i).sinks = (desk.loggers i).sinks := by
  obtain ⟨writes, -, haccounts⟩ := desk.step_noted [] t
  exact (haccounts i).sinks

section
variable {desk : Desk ω} {i : Nat} {held : ω → Option (List Decision)}

theorem HasMemory.step (h : desk.HasMemory i held) (t : Turn) : (desk.step t).2.HasMemory i held where
  sink := by rw [step_sinks]; exact h.sink
  others := fun k hk => by rw [step_sinks]; exact h.others k hk

theorem step_held (h : desk.HasMemory i held) (t : Turn) :
    held (desk.step t).2.world = (held desk.world).map (· ++ (desk.outcomes i [t]).filterMap decisionOf) := by
  obtain ⟨scene, addressee, matter⟩ := t
  cases matter with
  | request r => simp [outcomes_of_request, Desk.step]
  | call c =>
    cases addressee with
    | router k =>
      simp only [outcomes_of_router, Desk.step, call]
      cases Routing.submit desk.store (desk.routers k) scene c.message c.options <;> simp
    | logger k =>
      cases hsubmit : (desk.loggers k).submit desk.store desk.world scene c.message c.options with
      | error e =>
        have hstep := step_of_refused hsubmit
        rw [outcomes_of_logger (congrArg Prod.fst hstep), hstep]
        split <;> simp [List.filterMap_cons]
      | ok done =>
        have hstep := step_of_logged hsubmit
        rw [outcomes_of_logger (congrArg Prod.fst hstep), hstep]
        rcases (Logger.submit_eq_ok hsubmit).2 with ⟨houtcome, -, hworld⟩ | ⟨d, houtcome, -, hworld⟩
        · split <;> simp [houtcome, hworld, List.filterMap_cons]
        · split
          · next hi =>
            subst hi
            obtain ⟨earlier, sink, later, hsinks, hremembers, hspares⟩ := h.sink
            simp [houtcome, hworld, hsinks, Sink.deliver_of_remembers hremembers hspares]
          · next hi => simp [hworld, Sink.deliver_of_spares (h.others k hi)]

theorem run_held (h : desk.HasMemory i held) (turns : List Turn) :
    held (desk.run turns).world = (held desk.world).map (· ++ (desk.outcomes i turns).filterMap decisionOf) := by
  induction turns generalizing desk with
  | nil => simp [run, outcomes, history]
  | cons t turns ih =>
    rw [run, ih (h.step t), step_held h, Option.map_map, desk.outcomes_cons i t turns, List.filterMap_append]
    simp only [Function.comp_def, List.append_assoc]

end

/-! ### The accounts of a run -/

theorem countP_isOk (outcomes : List (Except Error Outcome)) :
    outcomes.countP (·.isOk) = outcomes.countP isSuppressed + (outcomes.filterMap decisionOf).length := by
  induction outcomes with
  | nil => rfl
  | cons r outcomes ih =>
    rw [List.countP_cons, List.countP_cons, ih]
    rcases r with e | d | _ <;> simp [List.filterMap_cons, Except.isOk, Except.toBool] <;> omega

theorem length_outcomes_le (desk : Desk ω) (i : Nat) (turns : List Turn) :
    (desk.outcomes i turns).length ≤ turns.length := by
  rw [← length_history desk turns]
  exact List.length_filterMap_le _ _

/-- The writes of all sinks can be noted without any other effect. Every sink of a logger is written to once for every
    decision the logger routed, in the order of the calls and, for one decision, in the order of the sinks, whatever
    the sinks make of it; so a memory ends up with just these decisions. Counted from zero, the counters say how many
    calls were routed, suppressed and met at all, how many decisions have a file, and how many writes failed, as long
    as these numbers fit. -/
theorem accounts (desk : Desk ω) (turns : List Turn) :
    let later := desk.run turns
    let writes := ((desk.noted []).run turns).world.2
    (desk.noted []).history turns = desk.history turns ∧ (desk.noted []).run turns = later.noted writes ∧
    (∀ i,
      let outcomes := desk.outcomes i turns
      let decisions := outcomes.filterMap decisionOf
      let own := writes.filter (·.logger = i)
      let failures := own.countP (·.reaction.isFailure)
      let metrics := (later.loggers i).metrics
      own.map (fun write => (write.decision, write.sink)) =
        (decisions.flatMap fun d => (List.range (desk.loggers i).sinks.length).map (d, ·)) ∧
      (∀ held, desk.HasMemory i held → held later.world = (held desk.world).map (· ++ decisions)) ∧
      ((desk.loggers i).metrics = .zero →
        (turns.length < UInt64.size →
          metrics.routed.toNat = decisions.length ∧
          metrics.suppressed.toNat = outcomes.countP isSuppressed ∧
          metrics.fileWrites.toNat = decisions.countP (·.file.isSome) ∧
          metrics.submitted.toNat = outcomes.countP (·.isOk)) ∧
        (failures < UInt64.size → metrics.sinkFailures.toNat = failures))) ∧
    ∀ slot, (Sink.memory slot).Remembers fun w => w.memories[slot]? := by
  intro later writes
  obtain ⟨notes, hhistory, hrun, haccounts⟩ := desk.run_noted [] turns
  have hnotes : notes = writes := by simp only [writes, hrun]; rfl
  rw [hnotes] at hrun haccounts
  refine ⟨hhistory, hrun, fun i => ?_, Sink.remembers_memory⟩
  intro outcomes decisions own failures metrics
  refine ⟨(haccounts i).order, fun held h => run_held h turns, fun hzero => ?_⟩
  have hmetrics : metrics = Metrics.zero.plus (.of outcomes own) := hzero ▸ (haccounts i).counters
  rw [hmetrics]
  refine ⟨fun hturns => ?_, fun hbound => Metrics.toNat_counted hbound⟩
  have hdecisions : decisions.length ≤ outcomes.length := List.length_filterMap_le _ _
  have hlength : outcomes.length < UInt64.size := Nat.lt_of_le_of_lt (desk.length_outcomes_le i turns) hturns
  have hok : outcomes.countP (·.isOk) = outcomes.countP isSuppressed + decisions.length := countP_isOk outcomes
  refine ⟨Metrics.toNat_counted ?_, Metrics.toNat_counted ?_, Metrics.toNat_counted ?_, ?_⟩
  · exact Nat.lt_of_le_of_lt hdecisions hlength
  · exact Nat.lt_of_le_of_lt List.countP_le_length hlength
  · exact Nat.lt_of_le_of_lt (Nat.le_trans List.countP_le_length hdecisions) hlength
  · have hsum : outcomes.countP (·.isOk) < UInt64.size := Nat.lt_of_le_of_lt List.countP_le_length hlength
    rw [hok] at hsum ⊢
    simp only [Metrics.submitted, Metrics.plus, Tally.of, Metrics.zero, UInt64.zero_add, ← UInt64.ofNat_add]
    exact UInt64.toNat_ofNat_of_lt' hsum

/-- A memory between a sink that refuses every decision and one that always breaks down. Of six calls one is wrong, one
    is suppressed since the threshold was raised, and two go to another logger and to a router. -/
theorem accounts_failing :
    let o : Occasion := ⟨⟨"/srv"⟩, ⟨0, 0, 0⟩⟩
    let sinks : List (Sink World) :=
      [.probe 0 (.refused (.file "full")) (.ok ()), .memory 0, .probe 1 .crashed (.ok ())]
    let desk : Desk World := ⟨.initial o, fun _ => default, fun i => .ofSinks (if i = 0 then sinks else [.memory 1]),
      ⟨.empty ["srv"], ⟨"", "", true⟩, [[], []], [⟨0, 0⟩, ⟨0, 0⟩]⟩⟩
    let raised : Patch := { (default : Patch) with threshold := some .error, fileName := some "a.log" }
    let filed : Options := { Options.ofSeverity .error with writeToFile := some true }
    let turns : List Turn := [
      (.logger 0, .call (.log .warning "a")),
      (.logger 0, .call (.log .off "b")),
      (.logger 0, .request (.patch raised)),
      (.logger 0, .call (.logCategory .warning "net" "c")),
      (.logger 1, .call (.logFrom .error "d" .unknown)),
      (.router 0, .call (.submit "e" filed)),
      (.logger 0, .call (.submit "f" filed))].map fun t => ⟨⟨.console, o.now, o⟩, t.1, t.2⟩
    let later := desk.run turns
    let metrics := (later.loggers 0).metrics
    (metrics.routed.toNat, metrics.suppressed.toNat, metrics.fileWrites.toNat, metrics.submitted.toNat,
      metrics.sinkFailures.toNat) = (2, 1, 1, 3, 4) ∧
    (later.world.memories[0]?.map fun held => held.map (·.severity)) = some [.warning, .error] := by
  intro o sinks desk raised filed turns later metrics
  obtain ⟨-, -, haccounts, hremembers⟩ := accounts desk turns
  obtain ⟨-, hheld, hcounters⟩ := haccounts 0
  have hmemory : desk.HasMemory 0 fun w => w.memories[0]? := by
    refine ⟨⟨[_], _, [_], rfl, hremembers 0, ?_⟩, fun k hk => ?_⟩
    · intro sink hsink d w
      rcases List.mem_pair.mp hsink with rfl | rfl <;> rfl
    · have hsinks : (desk.loggers k).sinks = [.memory 1] := if_neg hk
      intro sink hsink d w
      rw [hsinks] at hsink
      obtain rfl := List.mem_singleton.mp hsink
      simp [Sink.memory]
  obtain ⟨hcalls, hfailures⟩ := hcounters rfl
  obtain ⟨hrouted, hsuppressed, hfiles, hsubmitted⟩ := hcalls (by decide)
  refine ⟨?_, ?_⟩
  · rw [hrouted, hsuppressed, hfiles, hsubmitted, hfailures (by decide +kernel)]
    decide +kernel
  · rw [hheld _ hmemory]
    decide +kernel

end Desk
end Logbook
