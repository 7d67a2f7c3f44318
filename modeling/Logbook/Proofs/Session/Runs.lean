import Logbook.Session

/-! Runs of a session, cut in two or taken apart into the moments when each action has its turn. -/

namespace Logbook

/-- A session, and the action whose turn it is. -/
structure Moment where
  session : Session
  action : Action

namespace Session

/-- The moments of a run, in order. -/
def moments (s : Session) : List Action → List Moment
  | [] => []
  | a :: actions => ⟨s, a⟩ :: (s.step a).2.moments actions

section
variable {s : Session} {a : Action} {actions : List Action}

@[simp] theorem run_cons_fst : (s.run (a :: actions)).1 = (s.step a).1 :: ((s.step a).2.run actions).1 := rfl

@[simp] theorem run_cons_snd : (s.run (a :: actions)).2 = ((s.step a).2.run actions).2 := rfl

end

theorem length_run (s : Session) (actions : List Action) : (s.run actions).1.length = actions.length := by
  induction actions generalizing s with
  | nil => rfl
  | cons a actions ih => rw [run_cons_fst, List.length_cons, List.length_cons, ih]

theorem run_append (s : Session) (before after : List Action) :
    s.run (before ++ after) =
      ((s.run before).1 ++ ((s.run before).2.run after).1, ((s.run before).2.run after).2) := by
  induction before generalizing s with
  | nil => rfl
  | cons a before ih => simp only [List.cons_append, run, ih]

theorem moments_append (s : Session) (before after : List Action) :
    s.moments (before ++ after) = s.moments before ++ (s.run before).2.moments after := by
  induction before generalizing s with
  | nil => rfl
  | cons a before ih => rw [List.cons_append, moments, moments, ih, List.cons_append, run_cons_snd]

theorem mem_moments {s : Session} {actions : List Action} {m : Moment} (h : m ∈ s.moments actions) :
    ∃ before after, actions = before ++ m.action :: after ∧ m.session = (s.run before).2 := by
  induction actions generalizing s with
  | nil => cases h
  | cons a actions ih =>
    rcases List.mem_cons.mp h with rfl | h
    · exact ⟨[], actions, rfl, rfl⟩
    · obtain ⟨before, after, rfl, hm⟩ := ih h
      exact ⟨a :: before, after, rfl, hm⟩

end Session
end Logbook
