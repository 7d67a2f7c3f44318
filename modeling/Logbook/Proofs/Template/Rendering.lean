import Logbook.Template.Basic

/-! What the line of a message depends on. Main statements: two messages have the same line if they agree on every
    field that the template says; a template that says nothing of the caller makes the same line whoever it is. -/

namespace Logbook

/-- The messages agree on what is said for a field. An unknown caller stands in for an absent one. -/
def Context.AgreeOn (c d : Context) : Field → Prop
  | .message => c.message = d.message
  | .timestamp => c.time = d.time
  | .callerName => (c.caller.getD .unknown).name = (d.caller.getD .unknown).name
  | .callerLine => (c.caller.getD .unknown).line = (d.caller.getD .unknown).line
  | .category => c.category = d.category
  | .level => c.severity = d.severity

namespace Template

theorem uses_eq_true {t : Template} {f : Field} : t.uses f = true ↔ ∃ token ∈ t.tokens, token.field? = some f :=
  t.present_iff f

theorem needsCaller_eq_false {t : Template} :
    t.needsCaller = false ↔ t.uses .callerName = false ∧ t.uses .callerLine = false := by
  simp [needsCaller]

variable {c d : Context}

theorem tokenText_congr {token : Token} (h : ∀ f, token.field? = some f → c.AgreeOn d f) :
    tokenText c token = tokenText d token := by
  cases token with
  | literal text => rfl
  | message => exact h .message rfl
  | timestamp format => exact congrArg format.format (h .timestamp rfl)
  | callerName => exact h .callerName rfl
  | callerLine => exact h .callerLine rfl
  | category => exact congrArg Text.trimmed (h .category rfl)
  | level => exact congrArg Severity.label (h .level rfl)

/-- Messages that agree on every field that the template says have the same line. -/
theorem render_congr {t : Template} (h : ∀ f, t.uses f = true → c.AgreeOn d f) : t.render c = t.render d := by
  have htexts : t.tokens.map (tokenText c) = t.tokens.map (tokenText d) := by
    refine List.map_congr_left fun token htoken => tokenText_congr fun f hf => h f ?_
    exact uses_eq_true.mpr ⟨token, htoken, hf⟩
  rw [render, render, htexts]

theorem render_caller {t : Template} (h : t.needsCaller = false) (message : String) (severity : Severity)
    (category : String) (caller caller' : Option Caller) (time : Instant) :
    t.render ⟨message, severity, category, caller, time⟩ = t.render ⟨message, severity, category, caller', time⟩ := by
  obtain ⟨hname, hline⟩ := needsCaller_eq_false.mp h
  refine render_congr fun f hf => ?_
  cases f with
  | callerName => rw [hname] at hf; cases hf
  | callerLine => rw [hline] at hf; cases hf
  | message => rfl
  | timestamp => rfl
  | category => rfl
  | level => rfl

end Template
end Logbook
