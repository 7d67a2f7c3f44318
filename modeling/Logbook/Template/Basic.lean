import Logbook.Caller
import Logbook.Severity
import Logbook.Text.Blank
import Logbook.Time.Format

/-! Message templates: literal text with fields in it, and the line that they make of a message. -/

namespace Logbook

/-- What a template can say about a message. -/
inductive Field where
  | message
  | timestamp
  | callerName
  | callerLine
  | category
  | level
deriving DecidableEq, Repr

namespace Field

/-- All fields, in order. -/
def all : List Field :=
  [.message, .timestamp, .callerName, .callerLine, .category, .level]

def name : Field → String
  | .message => "Message"
  | .timestamp => "Timestamp"
  | .callerName => "CallerName"
  | .callerLine => "CallerLineNumber"
  | .category => "Category"
  | .level => "MessageLevel"

theorem mem_all (f : Field) : f ∈ all := by
  cases f <;> decide

/-- The place of a field among all, counted from zero. -/
def place : Field → Nat
  | .message => 0
  | .timestamp => 1
  | .callerName => 2
  | .callerLine => 3
  | .category => 4
  | .level => 5

theorem place_inj {f g : Field} : f.place = g.place ↔ f = g := by
  cases f <;> cases g <;> decide

end Field

/-- A set of fields, with a bit for each. -/
structure FieldSet where
  bits : BitVec 8
deriving DecidableEq, Repr

namespace FieldSet

instance : EmptyCollection FieldSet := ⟨⟨0#8⟩⟩

def bit (f : Field) : BitVec 8 :=
  BitVec.twoPow 8 f.place

def contains (s : FieldSet) (f : Field) : Bool :=
  s.bits &&& bit f != 0#8

def insert (s : FieldSet) (f : Field) : FieldSet :=
  ⟨s.bits ||| bit f⟩

/-- The fields in the set, in their order. -/
def toList (s : FieldSet) : List Field :=
  Field.all.filter s.contains

theorem contains_eq (s : FieldSet) (f : Field) : s.contains f = s.bits.getLsbD f.place := by
  have hbit : bit f ≠ 0#8 := by cases f <;> decide
  rw [contains, bit, BitVec.and_twoPow, ← bit]
  cases s.bits.getLsbD f.place <;> simp [hbit]

theorem contains_empty (f : Field) : contains ∅ f = false := by
  cases f <;> decide

theorem contains_insert (s : FieldSet) (f g : Field) : (s.insert g).contains f = (s.contains f || f == g) := by
  have hplace : f.place < 8 := by cases f <;> decide
  rw [contains_eq, contains_eq, insert, BitVec.getLsbD_or, bit, BitVec.getLsbD_twoPow]
  by_cases hfg : f = g
  · simp [hfg ▸ hplace, hfg]
  · have hne : g.place ≠ f.place := fun h => hfg (Field.place_inj.mp h).symm
    simp [hfg, hne]

end FieldSet

/-- A part of a template: literal text, or a field, of which the time has a format. -/
inductive Token where
  | literal (text : String)
  | message
  | timestamp (format : DateFormat)
  | callerName
  | callerLine
  | category
  | level
deriving DecidableEq, Repr

namespace Token

def field? : Token → Option Field
  | .literal _ => none
  | .message => some .message
  | .timestamp _ => some .timestamp
  | .callerName => some .callerName
  | .callerLine => some .callerLine
  | .category => some .category
  | .level => some .level

end Token

/-- What is known about a message when its line is made. The caller is absent when nobody asked for it. -/
structure Context where
  message : String
  severity : Severity
  category : String
  caller : Option Caller
  time : Instant
deriving DecidableEq, Repr

/-- A template: the text it was written as, its parts in order, and the fields among them. -/
structure Template where
  source : String
  tokens : List Token
  present : FieldSet
  present_iff : ∀ f, present.contains f = true ↔ ∃ token ∈ tokens, token.field? = some f
deriving DecidableEq, Repr

namespace Template

/-! ### Fields -/

/-- The template says field `f` somewhere. -/
def uses (t : Template) (f : Field) : Bool :=
  t.present.contains f

/-- The fields that the template says, in their order. -/
def fields (t : Template) : List Field :=
  t.present.toList

/-- The line cannot be made without knowing the caller. -/
def needsCaller (t : Template) : Bool :=
  t.uses .callerName || t.uses .callerLine

/-! ### Lines -/

def tokenText (c : Context) : Token → String
  | .literal text => text
  | .message => c.message
  | .timestamp format => format.format c.time
  | .callerName => (c.caller.getD .unknown).name
  | .callerLine => (c.caller.getD .unknown).line
  | .category => Text.trimmed c.category
  | .level => c.severity.label

def render (t : Template) (c : Context) : String :=
  String.join (t.tokens.map (tokenText c))

end Template
end Logbook
