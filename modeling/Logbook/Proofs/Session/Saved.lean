import Logbook.Proofs.Configuration.Printed
import Logbook.Proofs.FileSystem.Contents
import Logbook.Proofs.Store.Derived
import Logbook.Proofs.Store.Valid
import Logbook.Session

/-! Configurations that are saved to a file and loaded from it. Main statement: a valid configuration is read back from
    its text as it was, and what one session saves puts the same configuration and the same template in force in any
    session that loads it. -/

namespace Logbook

namespace FileSystem

/-- A text that was written to a file is read from it. -/
theorem readText_of_write {fs later : FileSystem} {p : Path} {text : String} (h : fs.write p text.toUTF8 = .ok later) :
    later.readText p = .ok text := by
  obtain ⟨⟨place, opened⟩, hopen, happend⟩ := bind_eq_ok.mp h
  obtain ⟨content, hcontent, rfl⟩ := append_eq_ok happend
  have hfile := content?_eq_some.mp hcontent
  obtain ⟨hplace, hfull | hwrote⟩ := openFile_eq_ok hopen
  · rw [hfile] at hfull
    cases hfull
  · obtain rfl : content = .empty := Option.some.inj (hcontent.symm.trans hwrote.here)
    have hkeeps : opened.Keeps (opened.put place (.file (.empty ++ text.toUTF8))) := .put (by simp [hfile]) _
    have hread := read_of_content? ((hwrote.keeps.trans hkeeps).locate hplace)
      (content?_eq_some.mpr (find?_put_self opened place _))
    have htext : String.fromUTF8? text.toUTF8 = some text := dif_pos text.isValidUTF8
    simp only [readText, hread, bind, Except.bind]
    rw [ByteArray.empty_append, htext]
    rfl

end FileSystem

namespace Session

theorem files_save {s : Session} {path : Path} (h : (s.save path).1 = .ok ()) :
    s.world.files.write path s.store.config.toJsonText.toUTF8 = .ok (s.save path).2.world.files := by
  unfold save at h ⊢
  cases hwrite : s.world.files.write path s.store.config.toJsonText.toUTF8 with
  | error refusal => rw [hwrite] at h; cases h
  | ok files => rfl

/-- The text of a valid configuration puts that configuration in force. -/
theorem load_of_text {t : Session} {path : Path} {c : Configuration} (hc : c.validate = .ok ())
    (h : t.world.files.readText path = .ok c.toJsonText) :
    t.load path = (.ok (), { t with store := t.store.adopt c t.occasion }) := by
  have hrun := Store.Update.run_load c.toJsonText t.occasion t.store
  rw [Configuration.ofJson?_toJsonText hc, Except.bind, hc] at hrun
  simp only [load, h, change, hrun]
  rfl

/-- Writing a configuration as text and reading it back are inverse: a valid configuration is read from its text as it
    was, so that it is written as the same text again. What a session saves, any session that has the file can load,
    and then it has the configuration and the template of the first. -/
theorem load_save :
    (∀ c : Configuration, c.validate = .ok () → Configuration.ofJson? c.toJsonText = .ok c ∧
      (Configuration.ofJson? c.toJsonText).map Configuration.toJsonText = .ok c.toJsonText) ∧
    ∀ (s t : Session) (path : Path), s.store.Reachable → (s.step (.save path)).1 = .done (.ok ()) →
      t.world.files = (s.step (.save path)).2.world.files →
      (t.step (.load path)).1 = .done (.ok ()) ∧
      (t.step (.load path)).2.store.config = s.store.config ∧
      (t.step (.load path)).2.store.template = s.store.template := by
  refine ⟨fun c hc => ?_, fun s t path hs hsaved hfiles => ?_⟩
  · rw [Configuration.ofJson?_toJsonText hc]
    exact ⟨rfl, rfl⟩
  · have hvalid : s.store.config.validate = .ok () := by
      obtain ⟨first, past, hstore⟩ := hs
      rw [hstore]
      exact Store.validate_run first past
    have htext : t.world.files.readText path = .ok s.store.config.toJsonText := by
      rw [hfiles]
      exact FileSystem.readText_of_write (files_save (Reply.done.inj hsaved))
    simp only [step, load_of_text hvalid htext, Store.adopt_config, Store.adopt_template, hs.template, true_and]

/-- A template and a category with quotes, a backslash and control characters are saved by one session and loaded by
    another, which had the initial configuration in force. -/
theorem load_save_escapes :
    let o : Occasion := ⟨⟨"/srv"⟩, ⟨0, 0, 0⟩⟩
    let c : Configuration := { (default : Configuration) with
      template := "\"\\\x01\t\x7bMessage\x7d",
      categories := .ofList [("a\"b\\\x1f", ⟨none, true⟩), ("é", ⟨some .red, false⟩)] }
    let t : Session := {
      store := .initial o, source := .given, loggers := [], templates := default,
      world := ⟨.empty ["srv"], ⟨"", "", true⟩, [], []⟩, resolver := .console o.base, clock := ⟨o.now, false⟩,
      loggerClock := ⟨o.now, false⟩, program := .console o.base, systemTime := o.now, asked := 0 }
    let s : Session := { t with store := (t.store.step o (.replace ⟨c, default⟩)).2 }
    let path : Path := ⟨"/srv/settings.json"⟩
    Configuration.ofJson? c.toJsonText = .ok c ∧
      ({ t with world := (s.step (.save path)).2.world }.step (.load path)).2.store.config = c := by
  intro o c t s path
  have hc : c.validate = .ok () := by decide
  have hs : s.store.Reachable := Store.Reachable.step ⟨o, [], rfl⟩ o (.replace ⟨c, default⟩)
  have hsaved : (s.save path).1 = .ok () := by decide +kernel
  have hloaded := load_save.2 s { t with world := (s.step (.save path)).2.world } path hs
    (congrArg Reply.done hsaved) rfl
  exact ⟨(load_save.1 c hc).1, hloaded.2.1⟩

end Session
end Logbook
