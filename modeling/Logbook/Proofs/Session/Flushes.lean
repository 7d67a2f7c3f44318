import Mathlib.Data.List.Basic
import Logbook.Session

/-! Flushing the sinks of a logger, and dropping loggers, which flushes their sinks once more. The flushes are noted
    in a list next to the world. Main statement: a logger flushes its sinks in order up to the first that fails,
    whose error is the answer; so all of them are flushed exactly if none fails but the last one, and a drop does no
    more. -/

namespace Logbook

/-- A sink was flushed: the number of its logger, its own number there, and what it answered. -/
structure Flush where
  logger : Nat
  sink : Nat
  answer : Except Error Unit

variable {ω : Type}

/-- The sink, which is sink number `j` of logger number `i`, with its flushes noted. -/
def Sink.watched (i j : Nat) (sink : Sink ω) : Sink (ω × List Flush) where
  name := sink.name
  write d w := let (reaction, after) := sink.write d w.1; (reaction, after, w.2)
  flush w := let (r, after) := sink.flush w.1; (r, after, w.2 ++ [⟨i, j, r⟩])

namespace Logger

def watched (l : Logger ω) (i : Nat) : Logger (ω × List Flush) :=
  ⟨l.sinks.mapIdx (Sink.watched i), l.templates, l.metrics⟩

/-- The flushes of its sinks that one flush of logger number `i` comes to. -/
def flushes (l : Logger ω) (i : Nat) (w : ω) : List Flush :=
  ((l.watched i).flush (w, [])).2.2

/-- Every sink is flushed once, in order, and the answer is that all is well exactly if every sink answers so. -/
def FlushesAll (l : Logger ω) (w : ω) : Prop :=
  (l.flushes 0 w).map (·.sink) = List.range l.sinks.length ∧
    ((l.flush w).1 = .ok () ↔ ∀ f ∈ l.flushes 0 w, f.answer = .ok ())

/-- The world after loggers were dropped one after the other, whatever their sinks answered. -/
def dropAll (loggers : List (Logger ω)) (w : ω) : ω :=
  loggers.foldl (fun w l => (l.flush w).2) w

end Logger

/-- Sinks from number `k` on, `n` of them, were flushed, and all went well. -/
def Flush.wellFrom (i k n : Nat) : List Flush :=
  (List.range' k n).map fun j => ⟨i, j, .ok ()⟩

namespace Flush
variable {i k n : Nat} {f : Flush}

theorem of_mem_wellFrom (h : f ∈ wellFrom i k n) : f.logger = i ∧ f.answer = .ok () := by
  obtain ⟨j, -, rfl⟩ := List.mem_map.mp h
  exact ⟨rfl, rfl⟩

theorem map_sink_wellFrom (i n : Nat) : (wellFrom i 0 n).map (·.sink) = List.range n := by
  rw [wellFrom, List.map_map, List.range_eq_range']
  exact List.map_id _

end Flush

/-! ### One flush -/

/-- Flushing goes on from sink to sink as long as all is well, and ends with the first error. -/
theorem Sink.flushAll_watched (i k : Nat) (sinks : List (Sink ω)) (w : ω) :
    ∃ flushes,
      (∀ notes, flushAll (sinks.mapIdx fun j => watched i (k + j)) (w, notes) =
        ((flushAll sinks w).1, (flushAll sinks w).2, notes ++ flushes)) ∧
      ((flushAll sinks w).1 = .ok () ∧ flushes = Flush.wellFrom i k sinks.length ∨
        ∃ m e, m < sinks.length ∧ (flushAll sinks w).1 = .error e ∧
          flushes = Flush.wellFrom i k m ++ [⟨i, k + m, .error e⟩]) := by
  -- The sinks that are left are numbered from `k` on, whatever was flushed before them.
  induction sinks generalizing k w with
  | nil => exact ⟨[], by simp [flushAll], Or.inl ⟨rfl, rfl⟩⟩
  | cons sink sinks ih =>
    rcases hflush : sink.flush w with ⟨answer, after⟩
    cases answer with
    | error e =>
      refine ⟨[⟨i, k, .error e⟩], fun notes => ?_, Or.inr ⟨0, e, by simp, ?_, rfl⟩⟩
      · simp [List.mapIdx_cons, flushAll, watched, hflush]
      · simp [flushAll, hflush]
    | ok u =>
      obtain ⟨flushes, hrest, hcases⟩ := ih (k + 1) after
      have hfirst : flushAll (sink :: sinks) w = flushAll sinks after := by simp [flushAll, hflush]
      refine ⟨⟨i, k, .ok ()⟩ :: flushes, fun notes => ?_, ?_⟩
      · simp only [Nat.add_assoc, Nat.add_comm 1] at hrest
        rw [hfirst, List.mapIdx_cons]
        simp [flushAll, watched, hflush, hrest]
      · rw [hfirst]
        rcases hcases with ⟨hok, rfl⟩ | ⟨m, e, hm, herror, rfl⟩
        · exact Or.inl ⟨hok, rfl⟩
        · refine Or.inr ⟨m + 1, e, Nat.succ_lt_succ hm, herror, ?_⟩
          rw [Nat.add_comm m 1, ← Nat.add_assoc, Nat.add_comm 1 m]
          rfl

namespace Logger
variable (l : Logger ω) (i : Nat) (w : ω)

/-- A logger whose sinks are watched answers as it does without, and leaves the world the same. -/
theorem flush_watched (notes : List Flush) :
    (l.watched i).flush (w, notes) = ((l.flush w).1, (l.flush w).2, notes ++ l.flushes i w) := by
  obtain ⟨flushes, hflush, -⟩ := Sink.flushAll_watched i 0 l.sinks w
  simp only [Nat.zero_add] at hflush
  have hflushes : l.flushes i w = flushes := congrArg (·.2.2) (hflush [])
  rw [hflushes]
  exact hflush notes

theorem flushes_cases :
    (l.flush w).1 = .ok () ∧ l.flushes i w = Flush.wellFrom i 0 l.sinks.length ∨
      ∃ m e, m < l.sinks.length ∧ (l.flush w).1 = .error e ∧
        l.flushes i w = Flush.wellFrom i 0 m ++ [⟨i, m, .error e⟩] := by
  obtain ⟨flushes, hflush, hcases⟩ := Sink.flushAll_watched i 0 l.sinks w
  simp only [Nat.zero_add] at hflush hcases
  have hflushes : l.flushes i w = flushes := congrArg (·.2.2) (hflush [])
  rw [hflushes]
  exact hcases

theorem logger_of_mem_flushes {f : Flush} (h : f ∈ l.flushes i w) : f.logger = i := by
  rcases l.flushes_cases i w with ⟨-, hflushes⟩ | ⟨m, e, -, -, hflushes⟩
  · rw [hflushes] at h
    exact (Flush.of_mem_wellFrom h).1
  · rw [hflushes] at h
    rcases List.mem_append.mp h with h | h
    · exact (Flush.of_mem_wellFrom h).1
    · rw [List.mem_singleton.mp h]

/-- All sinks are flushed exactly if none but the last one fails. -/
theorem flushesAll_iff_of_last :
    l.FlushesAll w ↔ ∀ f ∈ l.flushes 0 w, f.answer = .ok () ∨ f.sink + 1 = l.sinks.length := by
  unfold FlushesAll
  rcases l.flushes_cases 0 w with ⟨hok, hflushes⟩ | ⟨m, e, hm, herror, hflushes⟩
  · rw [hflushes, hok, Flush.map_sink_wellFrom]
    have hall : ∀ f ∈ Flush.wellFrom 0 0 l.sinks.length, f.answer = .ok () := fun f hf => (Flush.of_mem_wellFrom hf).2
    exact iff_of_true ⟨rfl, iff_of_true rfl hall⟩ fun f hf => Or.inl (hall f hf)
  · rw [hflushes, herror, List.map_append, Flush.map_sink_wellFrom, List.map_singleton, ← List.range_succ]
    have hlast : (⟨0, m, .error e⟩ : Flush) ∈ Flush.wellFrom 0 0 m ++ [⟨0, m, .error e⟩] := by simp
    constructor
    · rintro ⟨hrange, -⟩ f hf
      rcases List.mem_append.mp hf with hf | hf
      · exact Or.inl (Flush.of_mem_wellFrom hf).2
      · have hlength := congrArg List.length hrange
        rw [List.length_range, List.length_range] at hlength
        rw [List.mem_singleton.mp hf]
        exact Or.inr hlength
    · intro h
      have hlength : m + 1 = l.sinks.length := (h _ hlast).resolve_left fun hfailed => by cases hfailed
      exact ⟨congrArg List.range hlength, iff_of_false (fun hok => by cases hok) fun hall => by cases hall _ hlast⟩

/-! ### Dropping loggers -/

/-- Each logger that is dropped flushes its sinks as it would otherwise, in the world that those before it left,
    whatever became of their flushes. -/
theorem dropAll_watched (loggers : List (Logger ω)) (k : Nat) (w : ω) :
    ∃ flushes,
      (∀ notes, dropAll (loggers.mapIdx fun i l => l.watched (k + i)) (w, notes) =
        (dropAll loggers w, notes ++ flushes)) ∧
      (∀ f ∈ flushes, k ≤ f.logger) ∧
      ∀ i l, loggers[i]? = some l →
        flushes.filter (·.logger = k + i) = l.flushes (k + i) (dropAll (loggers.take i) w) := by
  induction loggers generalizing k w with
  | nil => exact ⟨[], by simp [dropAll], by simp, by simp⟩
  | cons l loggers ih =>
    obtain ⟨flushes, hrest, hlater, hfilter⟩ := ih (k + 1) (l.flush w).2
    refine ⟨l.flushes k w ++ flushes, fun notes => ?_, fun f hf => ?_, fun i m hm => ?_⟩
    · simp only [Nat.add_assoc, Nat.add_comm 1] at hrest
      rw [List.mapIdx_cons, dropAll, List.foldl_cons, Nat.add_zero, flush_watched, ← dropAll, hrest, List.append_assoc]
      rfl
    · rcases List.mem_append.mp hf with hf | hf
      · exact Nat.le_of_eq (l.logger_of_mem_flushes k w hf).symm
      · exact Nat.le_of_succ_le (hlater f hf)
    · rw [List.filter_append]
      cases i with
      | zero =>
        obtain rfl := Option.some.inj hm
        have hown : (l.flushes k w).filter (·.logger = k) = l.flushes k w :=
          List.filter_eq_self.mpr fun f hf => by simpa using l.logger_of_mem_flushes k w hf
        have hothers : flushes.filter (·.logger = k) = [] :=
          List.filter_eq_nil_iff.mpr fun f hf => by simpa using Nat.ne_of_gt (hlater f hf)
        rw [Nat.add_zero, hown, hothers, List.append_nil]
        rfl
      | succ i =>
        have hothers : (l.flushes k w).filter (·.logger = k + (i + 1)) = [] :=
          List.filter_eq_nil_iff.mpr fun f hf => by simp [l.logger_of_mem_flushes k w hf]
        have hnumber : k + (i + 1) = k + 1 + i := by omega
        rw [hothers, List.nil_append, hnumber]
        exact hfilter i m hm

/-- Watching the sinks changes nothing else. A flush goes through them in order, each once: through all of them if
    all is well, which is the answer then, and otherwise up to the first that fails, whose error is the answer. So
    all sinks are flushed exactly if none fails but the last one. Of loggers that are dropped one after the other,
    each flushes its sinks just so, whatever became of the flushes before; and that is how a session drops its
    loggers. -/
theorem flushesAll_iff (l : Logger ω) (i : Nat) (w : ω) :
    (∀ notes, (l.watched i).flush (w, notes) = ((l.flush w).1, (l.flush w).2, notes ++ l.flushes i w)) ∧
    ((l.flush w).1 = .ok () ∧ l.flushes i w = Flush.wellFrom i 0 l.sinks.length ∨
      ∃ m e, m < l.sinks.length ∧ (l.flush w).1 = .error e ∧
        l.flushes i w = Flush.wellFrom i 0 m ++ [⟨i, m, .error e⟩]) ∧
    (l.FlushesAll w ↔ ∀ f ∈ l.flushes 0 w, f.answer = .ok () ∨ f.sink + 1 = l.sinks.length) ∧
    (∀ loggers : List (Logger ω),
      let dropped := dropAll (loggers.mapIdx fun j m => m.watched j) (w, [])
      dropped.1 = dropAll loggers w ∧ ∀ j m, loggers[j]? = some m →
        dropped.2.filter (·.logger = j) = m.flushes j (dropAll (loggers.take j) w)) ∧
    ∀ s : Session, (s.step .dropAll).2 = { s with world := dropAll s.loggers s.world } := by
  refine ⟨l.flush_watched i w, l.flushes_cases i w, l.flushesAll_iff_of_last w, fun loggers => ?_, fun s => rfl⟩
  obtain ⟨flushes, hdropped, -, hfilter⟩ := dropAll_watched loggers 0 w
  simp only [Nat.zero_add] at hdropped hfilter
  intro dropped
  have hnotes : dropped = (dropAll loggers w, flushes) := hdropped []
  rw [hnotes]
  exact ⟨rfl, hfilter⟩

/-- The first of two sinks fails: the second is flushed neither by a flush nor when the logger is dropped. -/
theorem not_flushesAll_failing :
    let sinks : List (Sink World) := [.probe 0 .taken (.error (.sink "spy" "flush")), .probe 1 .taken (.ok ())]
    let w : World := ⟨.empty [], ⟨"", "", true⟩, [], [⟨0, 0⟩, ⟨0, 0⟩]⟩
    ¬(ofSinks sinks).FlushesAll w ∧ (dropAll [ofSinks sinks] w).probes = [⟨0, 1⟩, ⟨0, 0⟩] := by
  refine ⟨fun h => ?_, rfl⟩
  have hlength := congrArg List.length h.1
  cases hlength

end Logger
end Logbook
