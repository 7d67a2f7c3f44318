/-! Paths of a Unix file system. A path keeps the text it was written with; its components leave out repeated
    slashes and single dots, except a dot at the start of a relative path. Main statements: a path is its lead
    and its segments, and joining under a base keeps the base in front. -/

namespace Logbook

/-- A path, as it is written. -/
structure Path where
  text : String
deriving DecidableEq, Repr

namespace Path

instance : Inhabited Path := ⟨⟨""⟩⟩

/-! ### Cutting a path into segments -/

/-- What stands before the segments: the slash of an absolute path, or the dot that a relative one starts with. -/
def leadOf : List Char → List Char
  | '/' :: _ => ['/']
  | ['.'] => ['.']
  | '.' :: '/' :: _ => ['.']
  | _ => []

/-- What stands between the slashes after the lead. -/
def segmentsOf (s : List Char) : List (List Char) :=
  (s.drop (leadOf s).length).splitOn '/'

def textOf (lead : List Char) (segments : List (List Char)) : List Char :=
  lead ++ ['/'].intercalate segments

/-- A segment that is no component: nothing, or a single dot. -/
def isIdle (segment : List Char) : Bool :=
  segment == [] || segment == ['.']

/-- The segments up to the last that is a component. -/
def settle (segments : List (List Char)) : List (List Char) :=
  (segments.reverse.dropWhile isIdle).reverse

/-- The last component of the path, unless the path ends with its lead. -/
def lastSegment? (p : Path) : Option (List Char) :=
  (settle (segmentsOf p.text.toList)).getLast?

/-! ### Components -/

/-- A step of a path. -/
inductive Component where
  | root
  | here
  | up
  | name (text : String)
deriving DecidableEq, Repr

/-- The component that a segment is, unless it is idle. -/
def Component.ofSegment? (segment : List Char) : Option Component :=
  if isIdle segment then none
  else if segment = ['.', '.'] then some .up
  else some (.name (String.ofList segment))

def Component.ofLead : List Char → List Component
  | ['/'] => [.root]
  | ['.'] => [.here]
  | _ => []

/-- The steps of a path, in order. -/
def components (p : Path) : List Component :=
  Component.ofLead (leadOf p.text.toList) ++ (segmentsOf p.text.toList).filterMap Component.ofSegment?

/-- The paths have the same steps, however they are written. -/
def sameSteps (p q : Path) : Bool :=
  p.components == q.components

/-- The steps of path `p` start with those of `base`. -/
def startsWith (p base : Path) : Bool :=
  base.components.isPrefixOf p.components

/-! ### Parts of a path -/

def isAbsolute (p : Path) : Bool :=
  p.text.toList.head? == some '/'

def isEmpty (p : Path) : Bool :=
  p.text == ""

/-- The last step of the path, if it is a name. -/
def fileName? (p : Path) : Option String :=
  match p.lastSegment? with
  | some segment => if segment = ['.', '.'] then none else some (String.ofList segment)
  | none => none

/-- The path without its last step, and without what is idle before that; the root has no parent. -/
def parent? (p : Path) : Option Path :=
  let cs := p.text.toList
  match settle (segmentsOf cs) with
  | [] => if leadOf cs = ['.'] then some ⟨""⟩ else none
  | segments@(_ :: _) => some ⟨String.ofList (textOf (leadOf cs) (settle segments.dropLast))⟩

/-- A file name cut at its last dot into stem and extension. A name without a dot, or with one in front only,
    has no extension. -/
def splitName (name : String) : String × Option String :=
  let cs := name.toList.reverse
  match cs.dropWhile (· != '.') with
  | [] => (name, none)
  | [_] => (name, none)
  | _ :: stem => (String.ofList stem.reverse, some (String.ofList (cs.takeWhile (· != '.')).reverse))

/-! ### Building a path -/

/-- Path `p` read from `base`: an absolute path stands for itself, any other follows a slash. -/
def join (base p : Path) : Path :=
  if p.isAbsolute then p
  else if base.isEmpty || base.text.toList.getLast? == some '/' then ⟨base.text ++ p.text⟩
  else ⟨base.text ++ "/" ++ p.text⟩

/-- The path with its file name replaced; a path without one gets the name as a further step. -/
def withFileName (p : Path) (name : String) : Path :=
  match p.fileName? with
  | some _ => (p.parent?.getD default).join ⟨name⟩
  | none => p.join ⟨name⟩

/-! ### Lemmas -/

theorem leadOf_append_drop (s : List Char) : leadOf s ++ s.drop (leadOf s).length = s := by
  unfold leadOf
  split <;> simp

theorem textOf_segmentsOf (s : List Char) : textOf (leadOf s) (segmentsOf s) = s := by
  rw [textOf, segmentsOf, List.intercalate_splitOn, leadOf_append_drop]

theorem join_of_isAbsolute {base p : Path} (h : p.isAbsolute = true) : base.join p = p := by
  simp [join, h]

@[simp] theorem sameSteps_self (p : Path) : p.sameSteps p = true := by
  simp [sameSteps]

end Path
end Logbook
