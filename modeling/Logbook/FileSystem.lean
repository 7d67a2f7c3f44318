import Logbook.Path

/-! A file system in memory: directories and files below a root, a working directory, and the device that can be
    opened but takes nothing. Operations go through a path step by step, as the system does, and are refused for
    the reasons for which the system refuses them. -/

namespace Logbook

/-- What a name in a directory stands for. -/
inductive Entry where
  | directory
  | file (content : ByteArray)
  /-- A device that is always full. -/
  | full

def Entry.isDirectory : Entry → Bool
  | .directory => true
  | _ => false

/-- Why an operation on files is refused. -/
inductive Refusal where
  | notFound
  | occupied
  | notADirectory
  | isADirectory
  | nameTooLong
  | noSpace
  | nulInPath
  | notText
deriving DecidableEq, Repr

namespace Refusal

def message : Refusal → String
  | .notFound => "No such file or directory (os error 2)"
  | .occupied => "File exists (os error 17)"
  | .notADirectory => "Not a directory (os error 20)"
  | .isADirectory => "Is a directory (os error 21)"
  | .nameTooLong => "File name too long (os error 36)"
  | .noSpace => "No space left on device (os error 28)"
  | .nulInPath => "file name contained an unexpected NUL byte"
  | .notText => "stream did not contain valid UTF-8"

/-- Why a directory cannot be made where `steps` are still to go: a file on the way is no directory, and one at
    the end has the name already. -/
def whenMaking (steps : List Path.Component) : Refusal → Refusal
  | .notADirectory => if steps.isEmpty then .occupied else .notADirectory
  | refusal => refusal

end Refusal

/-- Files and directories by their place, which is the names on the way from the root; every place stands once.
    The working directory is the place that relative paths start from. -/
structure FileSystem where
  working : List String
  entries : List (List String × Entry)

namespace FileSystem

/-! ### Entries -/

/-- The entry at a place. -/
def find? (fs : FileSystem) (place : List String) : Option Entry :=
  fs.entries.lookup place

/-- The file system with an entry at a place, in place of what was there. -/
def put (fs : FileSystem) (place : List String) (entry : Entry) : FileSystem :=
  { fs with entries := (place, entry) :: fs.entries.filter fun e => e.1 != place }

/-- Directories at a place and at all places on the way to it. -/
def directoriesTo (place : List String) : List (List String × Entry) :=
  (List.range (place.length + 1)).map fun n => (place.take n, .directory)

/-- A file system with an empty working directory, and the device that is always full. -/
def empty (working : List String) : FileSystem :=
  let fs : FileSystem := ⟨working, directoriesTo working⟩
  (fs.put ["dev"] .directory).put ["dev", "full"] .full

/-! ### Places -/

/-- The greatest number of bytes of a name. -/
def nameLimit : Nat :=
  255

/-- The greatest number of bytes of a path. -/
def pathLimit : Nat :=
  4095

/-- A path that no operation accepts. -/
def refusal? (p : Path) : Option Refusal :=
  if p.isEmpty then some .notFound
  else if p.text.toList.contains '\x00' then some .nulInPath
  else if pathLimit < p.text.utf8ByteSize then some .nameTooLong
  else none

/-- The place that one step leads to, which has to be a directory. -/
def enter (fs : FileSystem) (place : List String) : Path.Component → Except Refusal (List String)
  | .root => .ok []
  | .here => .ok place
  | .up => .ok place.dropLast
  | .name name =>
    if nameLimit < name.utf8ByteSize then .error .nameTooLong
    else
      match fs.find? (place ++ [name]) with
      | none => .error .notFound
      | some .directory => .ok (place ++ [name])
      | some _ => .error .notADirectory

/-- The path can only mean a directory: it ends with a slash or with dots. -/
def meansDirectory (p : Path) : Bool :=
  match (Path.segmentsOf p.text.toList).getLast? with
  | none => true
  | some segment => Path.isIdle segment || segment == ['.', '.']

/-- The place that a path means, where a file may be; the directories on the way have to exist. -/
def locate (fs : FileSystem) (p : Path) : Except Refusal (List String) := do
  if let some refusal := refusal? p then throw refusal
  let place ← p.components.dropLast.foldlM fs.enter fs.working
  match p.components.getLast? with
  | some (.name name) =>
    if nameLimit < name.utf8ByteSize then throw .nameTooLong
    else if meansDirectory p then
      throw (if (fs.find? (place ++ [name])).any Entry.isDirectory then .isADirectory else .notADirectory)
    else return place ++ [name]
  | _ => throw .isADirectory

/-! ### Reading and writing -/

/-- The place of a file that is opened for writing, and the file system after that: an absent file is made, and
    one that is there is emptied if `clear` says so. -/
def openFile (fs : FileSystem) (p : Path) (clear : Bool) : Except Refusal (List String × FileSystem) := do
  let place ← fs.locate p
  match fs.find? place with
  | none => return (place, fs.put place (.file .empty))
  | some .directory => throw .isADirectory
  | some .full => return (place, fs)
  | some (.file _) => return (place, if clear then fs.put place (.file .empty) else fs)

/-- The file system after bytes are written to the end of the open file at a place. -/
def append (fs : FileSystem) (place : List String) (bytes : ByteArray) : Except Refusal FileSystem :=
  match fs.find? place with
  | some (.file content) => .ok (fs.put place (.file (content ++ bytes)))
  | some .full => .error .noSpace
  | some .directory => .error .isADirectory
  | none => .error .notFound

def write (fs : FileSystem) (p : Path) (bytes : ByteArray) : Except Refusal FileSystem := do
  let (place, fs) ← fs.openFile p true
  fs.append place bytes

def read (fs : FileSystem) (p : Path) : Except Refusal ByteArray := do
  let place ← fs.locate p
  match fs.find? place with
  | some (.file content) => return content
  | some .full => return .empty
  | some .directory => throw .isADirectory
  | none => throw .notFound

def readText (fs : FileSystem) (p : Path) : Except Refusal String := do
  match String.fromUTF8? (← fs.read p) with
  | some text => return text
  | none => throw .notText

/-! ### Directories -/

/-- The steps with a directory made wherever one is absent, up to the first that is refused. -/
def makeSteps (fs : FileSystem) (place : List String) : List Path.Component → FileSystem × Option Refusal
  | [] => (fs, none)
  | step :: steps =>
    match fs.enter place step, step with
    | .ok place, _ => makeSteps fs place steps
    | .error .notFound, .name name =>
      makeSteps (fs.put (place ++ [name]) .directory) (place ++ [name]) steps
    | .error refusal, _ => (fs, some (refusal.whenMaking steps))

/-- The file system with a directory at the path and at all places on the way, and why this was refused. -/
def makeDirectory (fs : FileSystem) (p : Path) : FileSystem × Option Refusal :=
  match refusal? p with
  | some refusal => (fs, some refusal)
  | none => makeSteps fs fs.working p.components

/-- The file system without the entry that the path means, and without what is below it. -/
def remove (fs : FileSystem) (p : Path) : Except Refusal FileSystem := do
  if let some refusal := refusal? p then throw refusal
  let place ← p.components.dropLast.foldlM fs.enter fs.working
  match p.components.getLast? with
  | some (.name name) =>
    match fs.find? (place ++ [name]) with
    | none => throw .notFound
    | some _ => return { fs with entries := fs.entries.filter fun e => !(place ++ [name]).isPrefixOf e.1 }
  | _ => throw .isADirectory

/-- Place `p` is listed before place `q` or is the same: names are compared one by one, and a directory comes
    before what it holds. -/
def listedFirst : List String → List String → Bool
  | [], _ => true
  | _ :: _, [] => false
  | a :: p, b :: q => if a = b then listedFirst p q else a < b

/-- What is below the working directory, each place as a path from there: the names of a directory in order, and
    a directory right before what it holds. -/
def list (fs : FileSystem) : List (String × Entry) :=
  let below := fs.entries.filter fun e => fs.working.isPrefixOf e.1 && fs.working.length < e.1.length
  let sorted := below.mergeSort fun a b => listedFirst a.1 b.1
  sorted.map fun e => ("/".intercalate (e.1.drop fs.working.length), e.2)

end FileSystem
end Logbook
