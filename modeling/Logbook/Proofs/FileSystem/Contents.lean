import Logbook.Sink

/-! The contents of files. A path leads to the same place as long as no directory is removed; making directories
    keeps every content. Main statement: a decision that a file sink takes puts one line at the end of one file, after
    emptying it if the grant says so, and leaves every other content alone. -/

namespace Logbook
namespace FileSystem

/-- The content of the file at a place, if there is a file. -/
def content? (fs : FileSystem) (place : List String) : Option ByteArray :=
  match fs.find? place with
  | some (.file content) => some content
  | _ => none

theorem content?_eq_some {fs : FileSystem} {place : List String} {content : ByteArray} :
    fs.content? place = some content ↔ fs.find? place = some (.file content) := by
  unfold content?
  split
  · next heq => simp [heq]
  · next hnot =>
    constructor
    · intro h
      cases h
    · intro h
      exact absurd h (hnot content)

/-! ### Putting an entry -/

section
variable (fs : FileSystem) (place : List String) (entry : Entry)

@[simp] theorem find?_put_self : (fs.put place entry).find? place = some entry := by
  simp [find?, put]

theorem lookup_filter_ne {q : List String} (h : q ≠ place) (entries : List (List String × Entry)) :
    (entries.filter fun e => e.1 != place).lookup q = entries.lookup q := by
  induction entries with
  | nil => rfl
  | cons e entries ih =>
    obtain ⟨r, e⟩ := e
    by_cases hr : r = place
    · have hqr : (q == r) = false := beq_eq_false_iff_ne.mpr (hr ▸ h)
      rw [List.filter_cons_of_neg (by simp [hr]), ih, List.lookup_cons, hqr]
    · rw [List.filter_cons_of_pos (by simpa using hr), List.lookup_cons, List.lookup_cons, ih]

theorem find?_put_of_ne {q : List String} (h : q ≠ place) : (fs.put place entry).find? q = fs.find? q := by
  have hq : (q == place) = false := beq_eq_false_iff_ne.mpr h
  simp only [find?, put, List.lookup_cons, hq]
  exact lookup_filter_ne place h fs.entries

theorem content?_put_of_ne {q : List String} (h : q ≠ place) :
    (fs.put place entry).content? q = fs.content? q := by
  rw [content?, content?, find?_put_of_ne fs place entry h]

end

/-! ### Directories that stay -/

/-- The working directory is the same, and what was a directory still is one. -/
structure Keeps (fs later : FileSystem) : Prop where
  working : later.working = fs.working
  directory : ∀ place, fs.find? place = some .directory → later.find? place = some .directory

namespace Keeps
variable {fs middle later : FileSystem}

theorem refl (fs : FileSystem) : fs.Keeps fs where
  working := rfl
  directory _ h := h

theorem trans (h : fs.Keeps middle) (h' : middle.Keeps later) : fs.Keeps later where
  working := h'.working.trans h.working
  directory place hplace := h'.directory place (h.directory place hplace)

theorem put {place : List String} (h : fs.find? place ≠ some .directory) (entry : Entry) :
    fs.Keeps (fs.put place entry) where
  working := rfl
  directory q hq := by
    have hne : q ≠ place := fun heq => h (heq ▸ hq)
    rw [find?_put_of_ne fs place entry hne, hq]

theorem enter (h : fs.Keeps later) {place q : List String} {step : Path.Component}
    (hstep : fs.enter place step = .ok q) : later.enter place step = .ok q := by
  cases step with
  | root => exact hstep
  | here => exact hstep
  | up => exact hstep
  | name name =>
    simp only [FileSystem.enter] at hstep ⊢
    split at hstep
    · cases hstep
    · next hshort =>
      rw [if_neg hshort]
      split at hstep
      · cases hstep
      · next hdirectory => rw [h.directory _ hdirectory]; exact hstep
      · cases hstep

theorem enterAll (h : fs.Keeps later) {steps : List Path.Component} {place q : List String}
    (hsteps : steps.foldlM fs.enter place = .ok q) : steps.foldlM later.enter place = .ok q := by
  induction steps generalizing place with
  | nil => exact hsteps
  | cons step steps ih =>
    rw [List.foldlM_cons] at hsteps ⊢
    obtain ⟨r, hstep, hrest⟩ := bind_eq_ok.mp hsteps
    exact bind_eq_ok.mpr ⟨r, h.enter hstep, ih hrest⟩

end Keeps

/-! ### Where a path leads -/

theorem locate_eq_ok {fs : FileSystem} {p : Path} {place : List String} :
    fs.locate p = .ok place ↔ refusal? p = none ∧ meansDirectory p = false ∧
      ∃ directory name, p.components.dropLast.foldlM fs.enter fs.working = .ok directory ∧
        p.components.getLast? = some (.name name) ∧ name.utf8ByteSize ≤ nameLimit ∧ place = directory ++ [name] := by
  unfold locate
  cases hrefusal : refusal? p with
  | some refusal => simp [bind, Except.bind, throw, throwThe, MonadExceptOf.throw]
  | none =>
    cases hdirectory : p.components.dropLast.foldlM fs.enter fs.working with
    | error refusal => simp [bind, Except.bind]
    | ok directory =>
      cases hlast : p.components.getLast? with
      | none => simp [bind, Except.bind, throw, throwThe, MonadExceptOf.throw]
      | some step =>
        cases step with
        | name name =>
          by_cases hlong : nameLimit < name.utf8ByteSize
          · have hnot : ¬name.utf8ByteSize ≤ nameLimit := by omega
            simp [hlong, hnot, bind, Except.bind, throw, throwThe, MonadExceptOf.throw]
          · have hshort : name.utf8ByteSize ≤ nameLimit := by omega
            cases hmeans : meansDirectory p
            · simp [hlong, hshort, bind, Except.bind, pure, Except.pure, eq_comm]
            · simp [hlong, bind, Except.bind, throw, throwThe, MonadExceptOf.throw]
        | _ => simp [bind, Except.bind, throw, throwThe, MonadExceptOf.throw]

/-- A path leads where it led before, as long as the directories stay. -/
theorem Keeps.locate {fs later : FileSystem} (h : fs.Keeps later) {p : Path} {place : List String}
    (hplace : fs.locate p = .ok place) : later.locate p = .ok place := by
  obtain ⟨hrefusal, hmeans, directory, name, hdirectory, hlast⟩ := locate_eq_ok.mp hplace
  exact locate_eq_ok.mpr ⟨hrefusal, hmeans, directory, name, by rw [h.working]; exact h.enterAll hdirectory, hlast⟩

/-- Paths with different last steps lead to different places. -/
theorem place_ne {fs : FileSystem} {p q : Path} {place place' : List String} (hp : fs.locate p = .ok place)
    (hq : fs.locate q = .ok place') (h : p.components.getLast? ≠ q.components.getLast?) : place ≠ place' := by
  obtain ⟨-, -, directory, name, -, hname, -, rfl⟩ := locate_eq_ok.mp hp
  obtain ⟨-, -, directory', name', -, hname', -, rfl⟩ := locate_eq_ok.mp hq
  intro heq
  apply h
  rw [hname, hname', (List.cons.inj (List.append_inj' heq rfl).2).1]

/-! ### Making directories -/

/-- Making directories removes none and keeps every content. -/
theorem makeSteps_keeps (steps : List Path.Component) (fs : FileSystem) (place : List String) :
    fs.Keeps (fs.makeSteps place steps).1 ∧ ∀ q, (fs.makeSteps place steps).1.content? q = fs.content? q := by
  induction steps generalizing fs place with
  | nil => exact ⟨.refl fs, fun _ => rfl⟩
  | cons step steps ih =>
    unfold makeSteps
    split
    · exact ih fs _
    · next name hstep =>
      -- The directory is made where nothing is, so it takes no content away.
      have hnothing : fs.find? (place ++ [name]) = none := by
        simp only [enter] at hstep
        split at hstep
        · cases hstep
        · split at hstep
          · assumption
          · cases hstep
          · cases hstep
      obtain ⟨hkeeps, hcontent⟩ := ih (fs.put (place ++ [name]) .directory) (place ++ [name])
      refine ⟨(Keeps.put (by simp [hnothing]) _).trans hkeeps, fun q => (hcontent q).trans ?_⟩
      by_cases hq : q = place ++ [name]
      · rw [hq, content?, content?, find?_put_self, hnothing]
      · exact content?_put_of_ne _ _ _ hq
    · exact ⟨.refl fs, fun _ => rfl⟩

theorem makeDirectory_keeps (fs : FileSystem) (p : Path) :
    fs.Keeps (fs.makeDirectory p).1 ∧ ∀ q, (fs.makeDirectory p).1.content? q = fs.content? q := by
  unfold makeDirectory
  split
  · exact ⟨.refl fs, fun _ => rfl⟩
  · exact makeSteps_keeps _ fs _

/-! ### Writing a line -/

/-- One file has another content, and nothing else changed but that directories may have been made. -/
structure Wrote (fs later : FileSystem) (place : List String) (content : ByteArray) : Prop where
  keeps : fs.Keeps later
  here : later.content? place = some content
  elsewhere : ∀ q, q ≠ place → later.content? q = fs.content? q

theorem Wrote.of_put {fs : FileSystem} {place : List String} (h : fs.find? place ≠ some .directory)
    (content : ByteArray) : fs.Wrote (fs.put place (.file content)) place content where
  keeps := .put h _
  here := content?_eq_some.mpr (find?_put_self fs place _)
  elsewhere _ hq := content?_put_of_ne fs place _ hq

theorem openFile_eq_ok {fs later : FileSystem} {p : Path} {clear : Bool} {place : List String}
    (h : fs.openFile p clear = .ok (place, later)) :
    fs.locate p = .ok place ∧ (later.find? place = some .full ∨
      fs.Wrote later place (if clear then .empty else (fs.content? place).getD .empty)) := by
  obtain ⟨found, hplace, h⟩ := bind_eq_ok.mp h
  cases hentry : fs.find? found with
  | none =>
    rw [hentry] at h
    obtain ⟨rfl, rfl⟩ := Prod.mk.inj (Except.ok.inj h)
    have hcontent : fs.content? found = none := by rw [content?, hentry]
    rw [hcontent, Option.getD_none, ite_self]
    exact ⟨hplace, Or.inr (.of_put (by simp [hentry]) _)⟩
  | some entry =>
    rw [hentry] at h
    cases entry with
    | directory => cases h
    | full =>
      obtain ⟨rfl, rfl⟩ := Prod.mk.inj (Except.ok.inj h)
      exact ⟨hplace, Or.inl hentry⟩
    | file content =>
      obtain ⟨rfl, rfl⟩ := Prod.mk.inj (Except.ok.inj h)
      refine ⟨hplace, Or.inr ?_⟩
      cases clear
      · have hcontent := content?_eq_some.mpr hentry
        rw [hcontent]
        exact ⟨.refl fs, hcontent, fun _ _ => rfl⟩
      · exact .of_put (by simp [hentry]) _

theorem append_eq_ok {fs later : FileSystem} {place : List String} {bytes : ByteArray}
    (h : fs.append place bytes = .ok later) :
    ∃ content, fs.content? place = some content ∧ later = fs.put place (.file (content ++ bytes)) := by
  unfold append at h
  split at h
  · next content hentry => exact ⟨content, content?_eq_some.mpr hentry, (Except.ok.inj h).symm⟩
  · cases h
  · cases h
  · cases h

theorem read_of_content? {fs : FileSystem} {p : Path} {place : List String} {content : ByteArray}
    (hplace : fs.locate p = .ok place) (h : fs.content? place = some content) : fs.read p = .ok content := by
  simp [read, hplace, content?_eq_some.mp h, bind, Except.bind, pure, Except.pure]

end FileSystem

namespace Sink
open FileSystem

/-- The content of a file after a line was written to it as the grant says. -/
def lineAdded (mode : WriteMode) (content : Option ByteArray) (line : String) : ByteArray :=
  (if mode = .overwrite then .empty else content.getD .empty) ++ (line ++ "\n").toUTF8

theorem makeDirectoryOf_keeps (p : Path) (fs : FileSystem) :
    fs.Keeps (makeDirectoryOf p fs).1 ∧ ∀ q, (makeDirectoryOf p fs).1.content? q = fs.content? q := by
  unfold makeDirectoryOf
  cases directoryOf p with
  | none => exact ⟨.refl fs, fun _ => rfl⟩
  | some parent =>
    have h := makeDirectory_keeps fs parent
    rcases hmade : fs.makeDirectory parent with ⟨made, _ | refusal⟩ <;> rw [hmade] at h <;> simpa [hmade] using h

theorem writeLine_eq_none {grant : FileGrant} {line : String} {fs later : FileSystem}
    (h : writeLine grant line fs = (later, none)) :
    ∃ place, fs.locate grant.path = .ok place ∧
      fs.Wrote later place (lineAdded grant.mode (fs.content? place) line) := by
  unfold writeLine at h
  rcases hopen : fs.openFile grant.path (grant.mode == .overwrite) with refusal | ⟨place, opened⟩
  · rw [hopen] at h
    cases h
  · rw [hopen] at h
    cases happend : opened.append place (line ++ "\n").toUTF8 with
    | error refusal =>
      simp only [happend] at h
      cases h
    | ok appended =>
      simp only [happend] at h
      obtain rfl := (Prod.mk.inj h).1
      obtain ⟨content, hcontent, rfl⟩ := append_eq_ok happend
      have hfile := content?_eq_some.mp hcontent
      obtain ⟨hplace, hfull | hwrote⟩ := openFile_eq_ok hopen
      · rw [hfile] at hfull
        cases hfull
      · have hsame := Option.some.inj (hcontent.symm.trans hwrote.here)
        refine ⟨place, hplace, hwrote.keeps.trans (.put (by simp [hfile]) _), ?_, fun q hq => ?_⟩
        · rw [content?_eq_some, find?_put_self, hsame, lineAdded]
          simp
        · rw [content?_put_of_ne _ _ _ hq, hwrote.elsewhere q hq]

/-- A decision that was written put one line at the end of its file. -/
theorem writeDecision_eq_none {makeDirectories : Bool} {d : Decision} {grant : FileGrant} {fs later : FileSystem}
    (hd : d.file = some grant) (h : writeDecision makeDirectories d fs = (later, none)) :
    ∃ place, later.locate grant.path = .ok place ∧
      fs.Wrote later place (lineAdded grant.mode (fs.content? place) d.text) := by
  unfold writeDecision at h
  rw [hd] at h
  obtain ⟨made, hmade, hkeeps, hcontent⟩ : ∃ made, writeLine grant d.text made = (later, none) ∧ fs.Keeps made ∧
      ∀ q, made.content? q = fs.content? q := by
    cases makeDirectories
    · exact ⟨fs, h, .refl fs, fun _ => rfl⟩
    · obtain ⟨hkeeps, hcontent⟩ := makeDirectoryOf_keeps grant.path fs
      rcases hmade : makeDirectoryOf grant.path fs with ⟨made, _ | e⟩
      · rw [hmade] at hkeeps hcontent
        simp only [if_true, hmade] at h
        exact ⟨made, h, hkeeps, hcontent⟩
      · simp only [if_true, hmade] at h
        cases h
  obtain ⟨place, hplace, hwrote⟩ := writeLine_eq_none hmade
  refine ⟨place, hwrote.keeps.locate hplace, hkeeps.trans hwrote.keeps, ?_, fun q hq => ?_⟩
  · rw [hwrote.here, hcontent]
  · rw [hwrote.elsewhere q hq, hcontent]

end Sink
end Logbook
