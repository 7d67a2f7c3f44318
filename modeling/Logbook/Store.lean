import Logbook.Configuration.Json
import Logbook.Decision
import Logbook.LogPath
import Logbook.Patch

/-! The store of the configuration in force. Next to the configuration it keeps what follows from it: the compiled
    template, the path of the log file, and whether that file has been written since the path became current. The
    first line for a new path may empty the file; every later one goes to its end. -/

namespace Logbook

/-- The circumstances under which the path of the log file is found: the directory that names are read from, and
    the time. -/
structure Occasion where
  base : Path
  now : Instant
deriving DecidableEq, Repr

/-- A configuration as it is handed out: with the path that its log file had then. -/
structure Snapshot where
  config : Configuration
  path : Path
deriving DecidableEq

/-- The configuration in force, and what follows from it. -/
structure Store where
  config : Configuration
  template : Template
  path : Path
  written : Bool
deriving DecidableEq

namespace Store

/-! ### The path of the log file -/

/-- The path of the log file under a configuration; it is empty when there is no log file. -/
def pathOf (c : Configuration) (o : Occasion) : Path :=
  logPath c.file.name c.file.includeDate o.base o.now.date

/-- The store with its path found again. The file counts as not yet written if the path leads elsewhere now, or
    if `anew` says so. -/
def refresh (s : Store) (anew : Bool) (o : Occasion) : Store :=
  let path := pathOf s.config o
  { s with path := path, written := s.written && !anew && path.sameSteps s.path }

/-! ### Changing the configuration -/

def initial (o : Occasion) : Store :=
  Store.refresh ⟨default, Template.compile Template.defaultSource, default, false⟩ true o

/-- The store with another configuration in force. The file counts as not yet written if its settings differ. -/
def adopt (s : Store) (c : Configuration) (o : Occasion) : Store :=
  Store.refresh { s with config := c, template := Template.compile c.template } (!s.config.sameFile c) o

def reset (s : Store) (o : Occasion) : Store :=
  s.adopt default o

/-! ### Changes that may fail -/

/-- A change of the configuration that is made in place, one assignment after the other. It may fail, and then leaves
    behind what has been assigned until then. -/
abbrev Update := ExceptT Error (StateM Store) Unit

namespace Update

/-- The answer to a change of store `s`, and the store that it leaves behind. -/
def run (u : Update) (s : Store) : Except Error Unit × Store :=
  ExceptT.run u s

/-- The store after a change of store `s`, if the change is made. -/
def result (u : Update) (s : Store) : Except Error Store :=
  (u.run s).1.map fun _ => (u.run s).2

/-- Another configuration is put in force, if that is valid. -/
def replace (c : Configuration) (o : Occasion) : Update := do
  c.validate
  let anew := !(← get).config.sameFile c
  modify fun s => { s with config := c }
  modify fun s => { s with template := Template.compile c.template }
  modify fun s => s.refresh anew o

/-- A patched copy takes the place of the configuration in force. The template is compiled again only if it changes, and
    the path is found again only if the settings of the file do. -/
def putCopy (copy : Configuration) (o : Occasion) : Update := do
  let before := (← get).config
  if copy.template ≠ before.template then
    modify fun s => { s with template := Template.compile copy.template }
  modify fun s => { s with config := copy }
  if !before.sameFile copy then
    modify fun s => s.refresh true o

/-- The configuration is patched, if the patch is valid. -/
def patch (p : Patch) (o : Occasion) : Update := do
  p.validate
  let copy ← p.apply (← get).config
  putCopy copy o

/-- The configuration that a JSON text describes is put in force, if that is valid. -/
def load (json : String) (o : Occasion) : Update := do
  replace (← Configuration.ofJson? json) o

end Update

/-- The store with another configuration in force, if that is valid. -/
def replace (s : Store) (c : Configuration) (o : Occasion) : Except Error Store :=
  (Update.replace c o).result s

/-- The store after a patch of its configuration, if that is valid. -/
def patch (s : Store) (p : Patch) (o : Occasion) : Except Error Store :=
  (Update.patch p o).result s

/-- The store with the configuration that a JSON text describes, if that is valid. -/
def load (s : Store) (json : String) (o : Occasion) : Except Error Store :=
  (Update.load json o).result s

/-- A copy of the configuration in force, to be handed out. -/
def snapshot (s : Store) : Snapshot :=
  ⟨s.config, s.path⟩

/-- The store with a handed-out configuration in force, if that is valid; the path that came with it counts for
    nothing. -/
def restore (s : Store) (c : Snapshot) (o : Occasion) : Except Error Store :=
  s.replace c.config o

/-! ### Writing to the log file -/

/-- The store with a path that has a date found again, in case the day has changed. -/
def renew (s : Store) (o : Occasion) : Store :=
  if s.config.file.includeDate then s.refresh false o else s

/-- Whether one line may be written to the log file, and how; the file counts as written afterwards. -/
def claim (s : Store) (o : Occasion) : Option FileGrant × Store :=
  let s := s.renew o
  if s.path.isEmpty then (none, s)
  else
    let mode := if s.config.file.overwrite && !s.written then WriteMode.overwrite else .append
    (some ⟨s.path, mode⟩, { s with written := true })

end Store
end Logbook
