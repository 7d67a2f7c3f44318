import Logbook.Template.Compile

/-! Compiled templates that are kept for the next use. A cache is emptied when a new template does not fit. -/

namespace Logbook

/-- Compiled templates by their text, and how many may be kept; there is always room for one. -/
structure TemplateCache where
  limit : Nat
  entries : List (String × Template)
deriving Repr

namespace TemplateCache

/-- The number of templates that a cache keeps if nothing else is said. -/
def defaultCapacity : Nat :=
  64

def empty (capacity : Nat) : TemplateCache :=
  ⟨max capacity 1, []⟩

instance : Inhabited TemplateCache := ⟨empty defaultCapacity⟩

def size (c : TemplateCache) : Nat :=
  c.entries.length

def isEmpty (c : TemplateCache) : Bool :=
  c.entries.isEmpty

/-- The template that is kept for this text. -/
def find? (c : TemplateCache) (source : String) : Option Template :=
  c.entries.lookup source

/-- The template of this text, whether it was kept or is compiled now, and the cache that keeps it. -/
def get (c : TemplateCache) (source : String) : Template × TemplateCache :=
  match c.find? source with
  | some template => (template, c)
  | none =>
    let template := Template.compile source
    let kept := if c.limit ≤ c.size then [] else c.entries
    (template, { c with entries := (source, template) :: kept })

end TemplateCache
end Logbook
