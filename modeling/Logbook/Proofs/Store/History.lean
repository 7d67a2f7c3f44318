import Logbook.Proofs.Store.Updates

/-! Histories of a store: requests made one after the other, each on an occasion of its own. What a request does is
    said once, for each of its kinds, and every theorem about a whole history rests on that. Main statements: a
    request that fails changes nothing, and a request keeps the path, finds it again because the settings of the
    file changed, or finds it again to see whether it leads elsewhere. -/

namespace Logbook
namespace Store

/-! ### Requests -/

/-- What is asked of a store. -/
inductive Request where
  | patch (p : Patch)
  | replace (c : Snapshot)
  | reset
  /-- The configuration is read from a file, whose text is given unless it could not be read. -/
  | load (text : Except Error String)
  | claim

/-- The answer to a request that is a change of the configuration, and the store that the change leaves behind. -/
def changed (s : Store) (u : Update) : Except Error (Option FileGrant) × Store :=
  ((u.run s).1.map fun _ => none, (u.run s).2)

/-- The answer to a request, and the store after it; only a claim is ever answered with a grant. -/
def step (s : Store) (o : Occasion) : Request → Except Error (Option FileGrant) × Store
  | .patch p => s.changed (.patch p o)
  | .replace c => s.changed (.replace c.config o)
  | .reset => (.ok none, s.reset o)
  | .load text => s.changed (do Update.load (← text) o)
  | .claim => (.ok (s.claim o).1, (s.claim o).2)

/-- What a request that is met answers and leads to. -/
def perform (s : Store) (o : Occasion) : Request → Except Error (Option FileGrant × Store)
  | .patch p => (s.patch p o).map fun t => (none, t)
  | .replace c => (s.restore c o).map fun t => (none, t)
  | .reset => .ok (none, s.reset o)
  | .load text => (text.bind fun json => s.load json o).map fun t => (none, t)
  | .claim => .ok (s.claim o)

/-- The store after requests that were made one after the other. -/
def run (s : Store) : List (Occasion × Request) → Store
  | [] => s
  | (o, r) :: rest => (s.step o r).2.run rest

/-- A store that some history leads to, on whatever occasions. -/
def Reachable (s : Store) : Prop :=
  ∃ first past, s = (initial first).run past

/-- Requests made at these times, while files lie under one directory. -/
def under (base : Path) (past : List (Instant × Request)) : List (Occasion × Request) :=
  past.map fun x => (⟨base, x.1⟩, x.2)

/-! ### Entries -/

/-- An entry of a history: a request and its occasion, its answer, and the store before and after it. -/
structure Entry where
  occasion : Occasion
  request : Request
  before : Store
  answer : Except Error (Option FileGrant)
  after : Store

/-- The entry of a request to store `s`. -/
def entry (s : Store) (o : Occasion) (r : Request) : Entry :=
  ⟨o, r, s, (s.step o r).1, (s.step o r).2⟩

/-- The entries of requests that were made one after the other. -/
def history (s : Store) : List (Occasion × Request) → List Entry
  | [] => []
  | (o, r) :: rest => s.entry o r :: (s.step o r).2.history rest

namespace Entry

/-- The request was met. -/
def Succeeds (e : Entry) : Prop :=
  ∃ grant, e.answer = .ok grant

/-- A line may be written. -/
def Grants (e : Entry) : Prop :=
  ∃ grant, e.answer = .ok (some grant)

/-- The name of the log file is as before, and so is whether it has a date. -/
def SameFile (e : Entry) : Prop :=
  e.before.config.sameFile e.after.config = true

/-- The path was found again: by a patch only if it changes the settings of the file, by a claim only if the path
    has a date. -/
def FindsPath (e : Entry) : Prop :=
  e.Succeeds ∧
    match e.request with
    | .patch _ => ¬e.SameFile
    | .claim => e.before.config.file.includeDate = true
    | _ => True

/-- The path leads where it led before. -/
def SamePath (e : Entry) : Prop :=
  e.after.path.sameSteps e.before.path = true

end Entry

/-! ### What changes of a store do -/

section
variable (s : Store) (o : Occasion) (anew : Bool) (c : Configuration)

@[simp] theorem refresh_config : (s.refresh anew o).config = s.config := rfl

@[simp] theorem refresh_template : (s.refresh anew o).template = s.template := rfl

@[simp] theorem refresh_path : (s.refresh anew o).path = pathOf s.config o := rfl

@[simp] theorem refresh_written :
    (s.refresh anew o).written = (s.written && !anew && (pathOf s.config o).sameSteps s.path) := rfl

@[simp] theorem adopt_config : (s.adopt c o).config = c := rfl

@[simp] theorem adopt_template : (s.adopt c o).template = Template.compile c.template := rfl

@[simp] theorem adopt_path : (s.adopt c o).path = pathOf c o := rfl

@[simp] theorem adopt_written :
    (s.adopt c o).written = (s.written && s.config.sameFile c && (pathOf c o).sameSteps s.path) := by
  simp [adopt]

@[simp] theorem renew_config : (s.renew o).config = s.config := by
  unfold renew
  split <;> rfl

@[simp] theorem renew_template : (s.renew o).template = s.template := by
  unfold renew
  split <;> rfl

end

@[simp] theorem sameFile_self (c : Configuration) : c.sameFile c = true := by
  simp [Configuration.sameFile]

theorem sameFile_iff {c d : Configuration} :
    c.sameFile d = true ↔ c.file.name = d.file.name ∧ c.file.includeDate = d.file.includeDate := by
  simp [Configuration.sameFile]

theorem pathOf_congr {c d : Configuration} (h : c.sameFile d = true) (o : Occasion) : pathOf c o = pathOf d o := by
  obtain ⟨hname, hdate⟩ := sameFile_iff.mp h
  rw [pathOf, pathOf, hname, hdate]

theorem renew_written (s : Store) (o : Occasion) :
    (s.renew o).written = (s.written && (s.renew o).path.sameSteps s.path) := by
  unfold renew
  split <;> simp

theorem renew_path (s : Store) (o : Occasion) :
    (s.renew o).path = if s.config.file.includeDate then pathOf s.config o else s.path := by
  unfold renew
  split <;> rfl

/-! ### What each request does -/

theorem patch_eq_ok {s t : Store} {p : Patch} {o : Occasion} (h : s.patch p o = .ok t) :
    ∃ c template, p.apply s.config = .ok c ∧
      (template = if c.template = s.config.template then s.template else Template.compile c.template) ∧
      t = if s.config.sameFile c then { s with config := c, template := template }
        else Store.refresh { s with config := c, template := template } true o := by
  obtain ⟨c, happly, rfl⟩ := patch_eq_ok_iff.mp h
  exact ⟨c, _, happly, rfl, rfl⟩

/-- A patch that is met puts the configuration in force that it makes of the one before. -/
theorem apply_of_patch {s t : Store} {p : Patch} {o : Occasion} (h : s.patch p o = .ok t) :
    p.apply s.config = .ok t.config := by
  obtain ⟨c, template, happly, -, rfl⟩ := patch_eq_ok h
  rw [happly]
  split <;> rfl

theorem replace_eq_ok {s t : Store} {c : Configuration} {o : Occasion} (h : s.replace c o = .ok t) :
    c.validate = .ok () ∧ t = s.adopt c o := by
  rw [replace_eq_map] at h
  obtain ⟨_, hvalid, ht⟩ := map_eq_ok.mp h
  exact ⟨hvalid, ht.symm⟩

theorem load_eq_ok {s t : Store} {json : String} {o : Occasion} (h : s.load json o = .ok t) :
    ∃ c, Configuration.ofJson? json = .ok c ∧ c.validate = .ok () ∧ t = s.adopt c o := by
  rw [load_eq_bind] at h
  obtain ⟨c, hc, ht⟩ := bind_eq_ok.mp h
  exact ⟨c, hc, replace_eq_ok ht⟩

theorem claim_of_isEmpty {s : Store} {o : Occasion} (h : (s.renew o).path.isEmpty = true) :
    s.claim o = (none, s.renew o) := by
  simp [claim, h]

theorem claim_of_not_isEmpty {s : Store} {o : Occasion} (h : (s.renew o).path.isEmpty = false) :
    s.claim o =
      (some ⟨(s.renew o).path, if s.config.file.overwrite && !(s.renew o).written then .overwrite else .append⟩,
        { s.renew o with written := true }) := by
  simp [claim, h]

/-- A claim that is granted gets the path it finds, which counts as written from then on. -/
theorem claim_eq_some {s t : Store} {o : Occasion} {grant : FileGrant} (h : s.claim o = (some grant, t)) :
    grant = ⟨(s.renew o).path, if s.config.file.overwrite && !(s.renew o).written then .overwrite else .append⟩ ∧
      t = { s.renew o with written := true } := by
  cases hempty : (s.renew o).path.isEmpty
  · rw [claim_of_not_isEmpty hempty] at h
    obtain ⟨hgrant, ht⟩ := Prod.mk.inj h
    exact ⟨(Option.some.inj hgrant).symm, ht.symm⟩
  · rw [claim_of_isEmpty hempty] at h
    cases (Prod.mk.inj h).1

section
variable (s : Store) (o : Occasion)

@[simp] theorem claim_config : (s.claim o).2.config = s.config := by
  cases h : (s.renew o).path.isEmpty
  · simp [claim_of_not_isEmpty h]
  · simp [claim_of_isEmpty h]

@[simp] theorem claim_template : (s.claim o).2.template = s.template := by
  cases h : (s.renew o).path.isEmpty
  · simp [claim_of_not_isEmpty h]
  · simp [claim_of_isEmpty h]

theorem claim_path : (s.claim o).2.path = (s.renew o).path := by
  cases h : (s.renew o).path.isEmpty
  · simp [claim_of_not_isEmpty h]
  · simp [claim_of_isEmpty h]

end

/-! ### What a step does -/

/-- A request is met as a whole or changes nothing. -/
theorem step_eq (s : Store) (o : Occasion) (r : Request) : s.step o r =
    match s.perform o r with
    | .ok (grant, t) => (.ok grant, t)
    | .error e => (.error e, s) := by
  have hchanged {u : Update} (hu : u.Atomic) : s.changed u =
      match (u.result s).map fun t => (none, t) with
      | .ok (grant, t) => (.ok grant, t)
      | .error e => (.error e, s) := by
    rw [changed, hu s]
    cases u.result s <;> rfl
  cases r with
  | patch p => exact hchanged (Update.atomic_patch p o)
  | replace c => exact hchanged (Update.atomic_replace c.config o)
  | load text =>
    cases text with
    | error e => rfl
    | ok json => exact hchanged (Update.atomic_load json o)
  | _ => rfl

theorem entry_of_error {s : Store} {o : Occasion} {r : Request} {e : Error} (h : s.perform o r = .error e) :
    s.entry o r = ⟨o, r, s, .error e, s⟩ := by
  rw [entry, step_eq, h]

theorem entry_of_ok {s t : Store} {o : Occasion} {r : Request} {grant : Option FileGrant}
    (h : s.perform o r = .ok (grant, t)) : s.entry o r = ⟨o, r, s, .ok grant, t⟩ := by
  rw [entry, step_eq, h]

/-- What the entry of a request says: it failed and changed nothing, or it patched the configuration and found the
    path again if the settings of the file changed, or it put another valid configuration in force, or it was a
    claim. -/
theorem entry_cases (s : Store) (o : Occasion) (r : Request) :
    (∃ e, s.entry o r = ⟨o, r, s, .error e, s⟩) ∨
    (∃ p c template, r = .patch p ∧ p.apply s.config = .ok c ∧
      (template = if c.template = s.config.template then s.template else Template.compile c.template) ∧
      s.entry o r = ⟨o, r, s, .ok none, if s.config.sameFile c then { s with config := c, template := template }
        else Store.refresh { s with config := c, template := template } true o⟩) ∨
    (∃ c, c.validate = .ok () ∧ (s.entry o r).FindsPath ∧ s.entry o r = ⟨o, r, s, .ok none, s.adopt c o⟩) ∨
    (r = .claim ∧ s.entry o r = ⟨o, r, s, .ok (s.claim o).1, (s.claim o).2⟩) := by
  cases r with
  | patch p =>
    cases hp : s.patch p o with
    | error e => exact Or.inl ⟨e, entry_of_error (congrArg (Except.map _) hp)⟩
    | ok t =>
      obtain ⟨c, template, happly, htemplate, rfl⟩ := patch_eq_ok hp
      exact Or.inr (Or.inl ⟨p, c, template, rfl, happly, htemplate, entry_of_ok (congrArg (Except.map _) hp)⟩)
  | replace c =>
    cases hc : s.restore c o with
    | error e => exact Or.inl ⟨e, entry_of_error (congrArg (Except.map _) hc)⟩
    | ok t =>
      obtain ⟨hvalid, rfl⟩ := replace_eq_ok hc
      have h : s.entry o (.replace c) = ⟨o, .replace c, s, .ok none, s.adopt c.config o⟩ :=
        entry_of_ok (congrArg (Except.map _) hc)
      exact Or.inr (Or.inr (Or.inl ⟨c.config, hvalid, by rw [h]; exact ⟨⟨none, rfl⟩, trivial⟩, h⟩))
  | reset => exact Or.inr (Or.inr (Or.inl ⟨default, Configuration.validate_default, ⟨⟨none, rfl⟩, trivial⟩, rfl⟩))
  | load text =>
    cases ht : text.bind fun json => s.load json o with
    | error e => exact Or.inl ⟨e, entry_of_error (congrArg (Except.map _) ht)⟩
    | ok t =>
      cases text with
      | error e => cases ht
      | ok json =>
        obtain ⟨c, -, hvalid, rfl⟩ := load_eq_ok ht
        have h : s.entry o (.load (.ok json)) = ⟨o, .load (.ok json), s, .ok none, s.adopt c o⟩ :=
          entry_of_ok (congrArg (Except.map _) ht)
        exact Or.inr (Or.inr (Or.inl ⟨c, hvalid, by rw [h]; exact ⟨⟨none, rfl⟩, trivial⟩, h⟩))
  | claim => exact Or.inr (Or.inr (Or.inr ⟨rfl, rfl⟩))

/-! ### Longer histories -/

theorem run_append (s : Store) (past later : List (Occasion × Request)) :
    s.run (past ++ later) = (s.run past).run later := by
  induction past generalizing s with
  | nil => rfl
  | cons x past ih => exact ih _

theorem history_append (s : Store) (past later : List (Occasion × Request)) :
    s.history (past ++ later) = s.history past ++ (s.run past).history later := by
  induction past generalizing s with
  | nil => rfl
  | cons x past ih => rw [List.cons_append, history, history, ih, List.cons_append]; rfl

theorem Reachable.step {s : Store} (h : s.Reachable) (o : Occasion) (r : Request) : (s.step o r).2.Reachable := by
  obtain ⟨first, past, rfl⟩ := h
  exact ⟨first, past ++ [(o, r)], by rw [run_append]; rfl⟩

end Store
end Logbook
