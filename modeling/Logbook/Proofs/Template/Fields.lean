import Mathlib.Algebra.Order.BigOperators.Group.List
import Mathlib.Algebra.Order.Ring.Nat
import Logbook.Proofs.Template.Rendering
import Logbook.Proofs.Text.Blank
import Logbook.Template.Compile

/-! The fields of a template are what its line depends on, no more and no less. A field that is said makes a difference:
    a longer text for it makes a longer line, whatever stands around it and however often it is said. The time is left
    out of that, for a format may show nothing of it. Main statement: a field is noted exactly if a token says it, and
    the line changes with the fields that are noted and with no other. -/

namespace Logbook

/-! ### Messages that differ in one field -/

namespace Context

/-- The messages differ in nothing but what is said for field `f`. Of the caller that is the name or the line alone. -/
structure AgreeBut (f : Field) (c d : Context) : Prop where
  others : ∀ g, g ≠ f → c.AgreeOn d g
  interactive : c.caller.map (·.interactive) = d.caller.map (·.interactive)

theorem AgreeOn.symm {f : Field} {c d : Context} (h : c.AgreeOn d f) : d.AgreeOn c f := by
  cases f <;> exact Eq.symm h

theorem AgreeBut.symm {f : Field} {c d : Context} (h : AgreeBut f c d) : AgreeBut f d c :=
  ⟨fun g hg => (h.others g hg).symm, h.interactive.symm⟩

/-- The texts for field `f` are longer in message `d` than in message `c`. -/
def Shorter (f : Field) (c d : Context) : Prop :=
  ∀ token : Token, token.field? = some f →
    (Template.tokenText c token).length < (Template.tokenText d token).length

/-- The message with a longer text for field `f`: one more mark, or the severity with the longest label. -/
def extend (c : Context) : Field → Context
  | .message => { c with message := c.message.push '*' }
  | .timestamp => c
  | .callerName => { c with caller := c.caller.map fun who => { who with name := who.name.push '*' } }
  | .callerLine => { c with caller := c.caller.map fun who => { who with line := who.line.push '*' } }
  | .category => { c with category := String.ofList (List.replicate ((Text.trimmed c.category).length + 1) '*') }
  | .level => { c with severity := .information }

theorem agreeBut_extend (c : Context) (f : Field) : AgreeBut f c (c.extend f) where
  others g h := by
    cases hcaller : c.caller <;> cases f <;> cases g <;> simp_all [AgreeOn, extend]
  interactive := by
    cases hcaller : c.caller <;> cases f <;> simp [extend, hcaller]

theorem length_trimmed_marks (n : Nat) : (Text.trimmed (String.ofList (List.replicate n '*'))).length = n := by
  have hmarks : ∀ c ∈ List.replicate n '*', Text.isBlank c = false := fun c hc => by
    rw [(List.mem_replicate.mp hc).2]
    rfl
  rw [← String.length_toList, Text.toList_trimmed, String.toList_ofList, Text.trim_of_no_blank hmarks,
    List.length_replicate]

theorem length_label_lt {s : Severity} (h : s ≠ .information) : s.label.length < Severity.information.label.length := by
  cases s with
  | information => exact absurd rfl h
  | _ => decide

theorem shorter_extend {c : Context} {f : Field} (htime : f ≠ .timestamp) (hcaller : c.caller.isSome = true)
    (hlevel : f = .level → c.severity ≠ .information) : Shorter f c (c.extend f) := by
  obtain ⟨who, hwho⟩ := Option.isSome_iff_exists.mp hcaller
  intro token htoken
  cases f with
  | timestamp => exact absurd rfl htime
  | message => cases token <;> cases htoken; simp [Template.tokenText, extend]
  | callerName => cases token <;> cases htoken; simp [Template.tokenText, extend, hwho]
  | callerLine => cases token <;> cases htoken; simp [Template.tokenText, extend, hwho]
  | category =>
    cases token <;> cases htoken
    simp only [Template.tokenText, extend, length_trimmed_marks]
    exact Nat.lt_succ_self _
  | level => cases token <;> cases htoken; exact length_label_lt (hlevel rfl)

end Context

namespace Template
variable {t : Template} {f : Field} {c d : Context}

/-! ### Lengths of lines -/

theorem length_render (t : Template) (c : Context) :
    (t.render c).length = (t.tokens.map fun token => (tokenText c token).length).sum := by
  rw [render, String.length_join, List.map_map]
  rfl

/-- Where a field is said, longer texts for it make a longer line. -/
theorem length_render_lt (huses : t.uses f = true) (hothers : ∀ g, g ≠ f → c.AgreeOn d g) (h : c.Shorter f d) :
    (t.render c).length < (t.render d).length := by
  obtain ⟨token, htoken, hf⟩ := uses_eq_true.mp huses
  rw [length_render, length_render]
  refine List.sum_lt_sum _ _ (fun other _ => ?_) ⟨token, htoken, h token hf⟩
  by_cases hother : other.field? = some f
  · exact (h other hother).le
  · have hsame : tokenText c other = tokenText d other :=
      tokenText_congr fun g hg => hothers g fun heq => hother (heq ▸ hg)
    rw [hsame]

theorem render_ne (huses : t.uses f = true) (hothers : ∀ g, g ≠ f → c.AgreeOn d g) (h : c.Shorter f d) :
    t.render c ≠ t.render d := by
  intro heq
  have hlt := length_render_lt huses hothers h
  rw [heq] at hlt
  exact Nat.lt_irrefl _ hlt

/-! ### What a line depends on -/

/-- Where a field is said, every message has a line that another one does not have, and the two differ in that field
    alone. -/
theorem exists_render_ne (huses : t.uses f = true) (htime : f ≠ .timestamp) (hcaller : c.caller.isSome = true) :
    ∃ d, c.AgreeBut f d ∧ t.render c ≠ t.render d := by
  by_cases hlongest : f = .level ∧ c.severity = .information
  · -- No label is longer than this one, so the other message has a shorter one.
    obtain ⟨rfl, hseverity⟩ := hlongest
    obtain ⟨d, hd, hlevel, hcaller'⟩ : ∃ d : Context, d.extend .level = c ∧ d.severity = .error ∧ d.caller = c.caller :=
      ⟨{ c with severity := .error }, by rw [Context.extend, ← hseverity], rfl, rfl⟩
    have hagree : d.AgreeBut .level c := hd ▸ d.agreeBut_extend .level
    have hshorter : d.Shorter .level c :=
      hd ▸ Context.shorter_extend htime (hcaller' ▸ hcaller) fun _ => by rw [hlevel]; decide
    exact ⟨d, hagree.symm, (render_ne huses hagree.others hshorter).symm⟩
  · have hagree := c.agreeBut_extend f
    have hshorter : c.Shorter f (c.extend f) :=
      Context.shorter_extend htime hcaller fun hlevel hseverity => hlongest ⟨hlevel, hseverity⟩
    exact ⟨c.extend f, hagree, render_ne huses hagree.others hshorter⟩

theorem render_eq_of_agreeBut (huses : t.uses f = false) (h : c.AgreeBut f d) : t.render c = t.render d :=
  render_congr fun g hg => h.others g fun heq => by
    rw [heq, huses] at hg
    cases hg

/-- A template that says the name or the line of the caller has another line for some caller than for none. -/
theorem exists_render_caller_ne (h : t.needsCaller = true) (c : Context) :
    ∃ who : Caller, t.render { c with caller := some who } ≠ t.render { c with caller := none } := by
  -- An absent caller counts as the unknown one, so a caller with a longer name or line makes the difference.
  let unknown : Context := { c with caller := some .unknown }
  have hnone : t.render { c with caller := none } = t.render unknown := render_congr fun g _ => by cases g <;> rfl
  rw [hnone]
  rw [needsCaller, Bool.or_eq_true] at h
  rcases h with hname | hline
  · exact ⟨{ Caller.unknown with name := Caller.unknown.name.push '*' },
      (render_ne hname (unknown.agreeBut_extend .callerName).others
        (Context.shorter_extend (by decide) rfl fun h => by cases h)).symm⟩
  · exact ⟨{ Caller.unknown with line := Caller.unknown.line.push '*' },
      (render_ne hline (unknown.agreeBut_extend .callerLine).others
        (Context.shorter_extend (by decide) rfl fun h => by cases h)).symm⟩

theorem mem_fields {t : Template} {f : Field} : f ∈ t.fields ↔ t.uses f = true := by
  rw [fields, FieldSet.toList, List.mem_filter, and_iff_right f.mem_all, uses]

/-- The fields that are noted of a template are those that its tokens say. Messages that differ in a field that is not
    noted have the same line. A field that is noted, the time aside, has its part in every line: for every message there
    is another that differs from it in that field alone and has another line. So the caller is not needed exactly if
    every message has the line with any caller that it has with none. -/
theorem fields_exact (source : String) :
    let t := compile source
    (∀ f, (f ∈ t.fields ↔ t.uses f = true) ∧ (t.uses f = true ↔ ∃ token ∈ t.tokens, token.field? = some f) ∧
      (t.uses f = false → ∀ c d : Context, c.AgreeBut f d → t.render c = t.render d) ∧
      (t.uses f = true → f ≠ .timestamp → ∀ c : Context, c.caller.isSome = true →
        ∃ d : Context, c.AgreeBut f d ∧ t.render c ≠ t.render d)) ∧
    (t.needsCaller = false ↔ ∀ (c : Context) (who : Caller),
      t.render { c with caller := none } = t.render { c with caller := some who }) := by
  intro t
  refine ⟨fun f => ⟨mem_fields, uses_eq_true, fun huses c d h => render_eq_of_agreeBut huses h,
    fun huses htime c hcaller => exists_render_ne huses htime hcaller⟩, fun hneeds c who => ?_, fun hsame => ?_⟩
  · exact render_caller hneeds _ _ _ _ _ _
  · cases hneeds : t.needsCaller
    · rfl
    · obtain ⟨who, hne⟩ := exists_render_caller_ne hneeds ⟨"", .error, "", none, ⟨0, 0, 0⟩⟩
      exact absurd (hsame _ who).symm hne

end Template
end Logbook
