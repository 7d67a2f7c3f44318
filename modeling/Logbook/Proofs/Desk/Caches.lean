import Logbook.Proofs.Desk.Runs
import Logbook.Proofs.Template.Evictions

/-! Nobody can tell from what a desk answers which of its routers and loggers was called, nor what their caches kept.
    A desk is compared with a store whose callers keep no templates at all. Main statement: all desks with one store
    answer the same turns alike, whoever is called in them, and keep the store alike; and a cache is emptied and hands
    out its templates again exactly when it is said to. -/

namespace Logbook

/-! ### Calls without a cache -/

namespace Routing

/-- What comes of a message, and the store after it, if no templates are kept: the one that is asked for is compiled for
    this message alone. -/
def afresh (s : Store) (scene : Scene) (message : String) (o : Options) : Except Error Outcome × Store :=
  match o.level with
  | .error e => (.error e, s)
  | .ok severity =>
    if severity.passes s.config.threshold then
      let template := (o.template.map Template.compile).getD s.template
      let plan := Plan.make s.config template severity o
      let caller := (callerOf plan o scene).1
      let text := template.render ⟨message, severity, plan.category, caller, scene.now⟩
      let (file, store) := fileOf s plan caller scene
      (.ok (.routed ⟨text, plan.destination, plan.color, severity, file⟩), store)
    else (.ok .suppressed, s)

/-- What comes of a message for the one who submits it and for the store. -/
def effect (s : Store) : Except Error Submission → Except Error Outcome × Store
  | .error e => (.error e, s)
  | .ok done => (.ok done.outcome, done.store)

section
variable {cache : TemplateCache} (h : cache.Faithful) (s : Store) (scene : Scene) (message : String) (o : Options)
include h

theorem templateOf_of_faithful : (templateOf s cache o).1 = (o.template.map Template.compile).getD s.template := by
  unfold templateOf
  cases o.template with
  | none => rfl
  | some source => exact h.get_fst source

theorem faithful_templateOf : (templateOf s cache o).2.Faithful := by
  unfold templateOf
  cases o.template with
  | none => exact h
  | some source => exact h.get_snd source

theorem faithful_submit {done : Submission} (hdone : submit s cache scene message o = .ok done) :
    done.templates.Faithful := by
  rcases submit_cases s cache scene message o with
    ⟨e, -, hsubmit⟩ | ⟨severity, -, -, hsubmit⟩ | ⟨severity, -, -, hsubmit⟩
  · rw [hsubmit] at hdone
    cases hdone
  · rw [hsubmit] at hdone
    obtain rfl := Except.ok.inj hdone
    exact h
  · rw [hsubmit] at hdone
    obtain rfl := Except.ok.inj hdone
    exact faithful_templateOf h s o

/-- What comes of a message does not depend on the templates that were kept. -/
theorem effect_submit : effect s (submit s cache scene message o) = afresh s scene message o := by
  unfold afresh
  cases hlevel : o.level with
  | error e => simp [submit, hlevel, bind, Except.bind, effect]
  | ok severity =>
    cases hpasses : severity.passes s.config.threshold with
    | false => simp [submit, hlevel, hpasses, bind, Except.bind, pure, Except.pure, effect]
    | true =>
      rw [submit_of_passes hlevel hpasses]
      simp only [effect, route, templateOf_of_faithful h, hpasses, if_true]
      rfl

end
end Routing

/-- A logger submits as a router does whose cache is that of the logger. -/
theorem Logger.submit_routing {ω : Type} (l : Logger ω) (s : Store) (w : ω) (scene : Scene) (message : String)
    (o : Options) :
    (∃ e, Routing.submit s l.templates scene message o = .error e ∧ l.submit s w scene message o = .error e) ∨
    ∃ done logged, Routing.submit s l.templates scene message o = .ok done ∧
      l.submit s w scene message o = .ok logged ∧ logged.outcome = done.outcome ∧ logged.store = done.store ∧
      logged.logger.templates = done.templates := by
  unfold submit
  rcases Routing.submit s l.templates scene message o with e | ⟨outcome, store, templates, asked⟩
  · exact Or.inl ⟨e, rfl, rfl⟩
  · cases outcome <;> exact Or.inr ⟨_, _, rfl, rfl, rfl, rfl, rfl⟩

/-- The turn, whoever is called in it. -/
def Turn.unaddressed (t : Turn) : Scene × Matter :=
  (t.scene, t.matter)

namespace Store

/-- What a store answers, and the store after that, to one who keeps no templates. -/
def answer (s : Store) (scene : Scene) : Matter → Answer × Store
  | .call c =>
    let (r, store) := Routing.afresh s scene c.message c.options
    (.outcome r, store)
  | .request r =>
    let (g, store) := s.step scene.occasion r
    (.granted g, store)

/-- The answers one after the other, and the store after all of them. -/
def answers (s : Store) : List (Scene × Matter) → List Answer × Store
  | [] => ([], s)
  | (scene, matter) :: rest =>
    let (answer, store) := s.answer scene matter
    let (answers, store) := store.answers rest
    (answer :: answers, store)

end Store

/-! ### Turns with caches -/

namespace Desk
variable {ω ω' : Type}

def answers (desk : Desk ω) (turns : List Turn) : List Answer :=
  (desk.history turns).map (·.answer)

/-- The caches have whatever room, and were used in whatever way. -/
structure Used (desk : Desk ω) : Prop where
  routers : ∀ i, (desk.routers i).Reachable
  loggers : ∀ i, (desk.loggers i).templates.Reachable

structure Faithful (desk : Desk ω) : Prop where
  routers : ∀ i, (desk.routers i).Faithful
  loggers : ∀ i, (desk.loggers i).templates.Faithful

theorem Used.faithful {desk : Desk ω} (h : desk.Used) : desk.Faithful :=
  ⟨fun i => (h.routers i).faithful, fun i => (h.loggers i).faithful⟩

section
variable {desk : Desk ω} (h : desk.Faithful)
include h

theorem Faithful.call (scene : Scene) (c : Call) (a : Addressee) :
    (desk.call scene c a).2.Faithful ∧ ((desk.call scene c a).1, (desk.call scene c a).2.store) =
      Routing.afresh desk.store scene c.message c.options := by
  cases a with
  | router i =>
    rw [← Routing.effect_submit (h.routers i)]
    simp only [Desk.call]
    cases hsubmit : Routing.submit desk.store (desk.routers i) scene c.message c.options with
    | error e => exact ⟨h, rfl⟩
    | ok done =>
      have hafter := Routing.faithful_submit (h.routers i) _ _ _ _ hsubmit
      have hrouters : ∀ k, (Function.update desk.routers i done.templates k).Faithful :=
        (Function.forall_update_iff desk.routers fun _ cache => cache.Faithful).mpr
          ⟨hafter, fun k _ => h.routers k⟩
      exact ⟨⟨hrouters, h.loggers⟩, rfl⟩
  | logger i =>
    rw [← Routing.effect_submit (h.loggers i)]
    simp only [Desk.call]
    rcases (desk.loggers i).submit_routing desk.store desk.world scene c.message c.options with
      ⟨e, hsubmit, hlogger⟩ | ⟨done, logged, hsubmit, hlogger, houtcome, hstore, htemplates⟩
    · rw [hsubmit, hlogger]
      exact ⟨h, rfl⟩
    · rw [hsubmit, hlogger]
      have hafter : logged.logger.templates.Faithful :=
        htemplates ▸ Routing.faithful_submit (h.loggers i) _ _ _ _ hsubmit
      have hloggers : ∀ k, (Function.update desk.loggers i logged.logger k).templates.Faithful :=
        (Function.forall_update_iff desk.loggers fun _ logger => logger.templates.Faithful).mpr
          ⟨hafter, fun k _ => h.loggers k⟩
      exact ⟨⟨h.routers, hloggers⟩, by simp [Routing.effect, houtcome, hstore]⟩

theorem Faithful.step (t : Turn) : (desk.step t).2.Faithful ∧
    ((desk.step t).1, (desk.step t).2.store) = desk.store.answer t.scene t.matter := by
  obtain ⟨scene, addressee, matter⟩ := t
  cases matter with
  | request r => exact ⟨⟨h.routers, h.loggers⟩, rfl⟩
  | call c =>
    obtain ⟨hfaithful, hcall⟩ := h.call scene c addressee
    refine ⟨hfaithful, ?_⟩
    rw [Store.answer, ← hcall]
    rfl

/-- A desk answers as its store does for callers who keep no templates. -/
theorem Faithful.run (turns : List Turn) :
    (desk.answers turns, (desk.run turns).store) = desk.store.answers (turns.map Turn.unaddressed) := by
  induction turns generalizing desk with
  | nil => rfl
  | cons t turns ih =>
    obtain ⟨hfaithful, hstep⟩ := h.step t
    have hrest := ih hfaithful
    simp only [List.map_cons, Turn.unaddressed, Store.answers, ← hstep, ← hrest]
    rfl

end

/-! ### Caches that nobody notices -/

/-- Desks with one store answer the same turns alike and keep the store alike, whichever routers and loggers are called
    in them, whatever sinks these have, and whatever room their caches have and were used for; and they do so as if
    every template that is asked for were compiled for that one call. A cache always hands out what the text compiles
    to. It keeps no more templates than it has room for, each under a text of its own. A lookup that loses one of them
    is one of a missing text in a full cache, and the other way round; then the cache loses all of them. An object is
    handed out again exactly if its text was looked up since the last such lookup. -/
theorem caches_unobservable :
    (∀ {ω ω' : Type} (desk : Desk ω) (desk' : Desk ω') (turns turns' : List Turn), desk.Used → desk'.Used →
      desk'.store = desk.store → turns'.map Turn.unaddressed = turns.map Turn.unaddressed →
      desk'.answers turns' = desk.answers turns ∧ (desk'.run turns').store = (desk.run turns).store ∧
      desk.store.answers (turns.map Turn.unaddressed) = (desk.answers turns, (desk.run turns).store)) ∧
    ∀ (capacity : Nat) (past : List String) (source : String),
      let cache := (TemplateCache.empty capacity).run past
      let sharing := (SharingCache.empty capacity).run past
      let object := (sharing.get source).1
      let lookups := (SharingCache.empty capacity).lookupsOf past
      (cache.get source).1 = Template.compile source ∧
      cache.size ≤ max capacity 1 ∧ (cache.entries.map Prod.fst).Nodup ∧
      (cache.Evicts source ↔ source ∉ cache.entries.map Prod.fst ∧ cache.size = max capacity 1) ∧
      (cache.Evicts source → (cache.get source).2.entries = [(source, Template.compile source)]) ∧
      (sharing.plain = cache ∧ object.template = (cache.get source).1) ∧
      ((∃ l ∈ lookups, l.object.number = object.number) ↔ Since (·.source = source) Lookup.Evicts lookups) ∧
      ∀ kept, Since (fun l => l.source = source ∧ l.object = kept) Lookup.Evicts lookups → object = kept := by
  refine ⟨fun desk desk' turns turns' hused hused' hstore hturns => ?_, fun capacity past source => ?_⟩
  · have hrun := hused.faithful.run turns
    have hrun' := hused'.faithful.run turns'
    rw [hstore, hturns, ← hrun] at hrun'
    obtain ⟨hanswers, hafter⟩ := Prod.mk.inj hrun'
    exact ⟨hanswers, hafter, hrun.symm⟩
  · intro cache sharing object lookups
    have htidy : cache.Tidy := (TemplateCache.tidy_empty capacity).run past
    have hlimit : cache.limit = max capacity 1 := TemplateCache.limit_run past _
    have hplain : sharing.plain = cache := SharingCache.plain_run capacity past
    have hevicts : cache.Evicts source ↔ cache.find? source = none ∧ cache.size = cache.limit := htidy.evicts_iff
    obtain ⟨hagain, hkept⟩ := SharingCache.get_run capacity past source
    refine ⟨?_, hlimit ▸ htidy.fits, htidy.distinct, ?_, fun h => ?_, ⟨hplain, ?_⟩, hagain, hkept⟩
    · exact TemplateCache.Faithful.get_fst (TemplateCache.Reachable.faithful ⟨capacity, past, rfl⟩) source
    · rw [hevicts, TemplateCache.find?_eq_none_iff, hlimit]
    · obtain ⟨hfind, hsize⟩ := hevicts.mp h
      rw [TemplateCache.get_of_full hfind (Nat.le_of_eq hsize.symm)]
    · rw [← hplain, SharingCache.get_plain]

/-- Three templates that are asked for, two of which differ in a blank at the end: a logger whose cache has room for one
    answers as a router does whose cache has room for two and was used before. In the small cache the second text takes
    the place of the first; with room for two the first is handed out again. -/
theorem caches_unobservable_blank :
    let o : Occasion := ⟨⟨"/srv"⟩, ⟨0, 0, 0⟩⟩
    let asking (template : String) : Options := { Options.ofSeverity .error with template := some template }
    let matters : List Matter := [.call (.submit "a" (asking "x")), .request .reset, .call (.submit "b" (asking "x ")),
      .call (.submit "c" (asking "x"))]
    let turns (a : Addressee) : List Turn := matters.map fun matter => ⟨⟨.console, o.now, o⟩, a, matter⟩
    let desk : Desk Unit := ⟨.initial o, fun _ => .empty 0, fun _ => ⟨[], .empty 0, .zero⟩, ()⟩
    let desk' : Desk Unit := { desk with routers := fun _ => (TemplateCache.empty 2).run ["y", "x"] }
    (desk'.answers (turns (.router 3)) = desk.answers (turns (.logger 0)) ∧
      (desk'.run (turns (.router 3))).store = (desk.run (turns (.logger 0))).store) ∧
    ((TemplateCache.empty 0).run ["x"]).Evicts "x " ∧
    (((SharingCache.empty 2).run ["x", "x "]).get "x").1.number = 0 := by
  intro o asking matters turns desk desk'
  obtain ⟨hdesks, hcaches⟩ := caches_unobservable
  have hused : desk.Used := ⟨fun _ => ⟨0, [], rfl⟩, fun _ => ⟨0, [], rfl⟩⟩
  have hused' : desk'.Used := ⟨fun _ => ⟨2, ["y", "x"], rfl⟩, fun _ => ⟨0, [], rfl⟩⟩
  obtain ⟨hanswers, hstore, -⟩ := hdesks desk desk' (turns (.logger 0)) (turns (.router 3)) hused hused' rfl rfl
  have hroom : ¬((TemplateCache.empty 2).run ["x"]).Evicts "x " := fun h =>
    absurd ((hcaches 2 ["x"] "x ").2.2.2.1.mp h).2 (by decide +kernel)
  have hagain := (hcaches 2 ["x", "x "] "x").2.2.2.2.2.2.2 ⟨0, .compile "x"⟩
  refine ⟨⟨hanswers, hstore⟩, (hcaches 0 ["x"] "x ").2.2.2.1.mpr (by decide +kernel), ?_⟩
  rw [hagain ⟨[], _, [_], rfl, ⟨rfl, rfl⟩, ?_⟩]
  intro l hl
  obtain rfl := List.mem_singleton.mp hl
  exact hroom

end Desk
end Logbook
