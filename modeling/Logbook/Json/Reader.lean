import Logbook.Json.Basic
import Logbook.Json.Numeral

/-! Reading a JSON text, from left to right, as a value of the shape that is wanted. The first problem met
    decides which fault is reported: a text that breaks off and a text that is no JSON are told from a text that
    is JSON but does not fit. What nobody asked for is skipped, and only its syntax is looked at. -/

namespace Logbook
namespace Json

/-- What stands at the front of a text, and the rest of the text. -/
abbrev Reader (α : Type) := List Char → Except Fault (α × List Char)

/-! ### Blanks and words -/

/-- A character that may stand between the parts of a JSON text. -/
def isSpace (c : Char) : Bool :=
  c == ' ' || c == '\n' || c == '\t' || c == '\r'

/-- The text from the first character that is no space. -/
def skipSpace (s : List Char) : List Char :=
  s.dropWhile isSpace

/-- The text after `letters`, which have to stand in front. -/
def keyword : List Char → List Char → Except Fault (List Char)
  | [], rest => .ok rest
  | _ :: _, [] => .error .ended
  | k :: ks, c :: rest => if c = k then keyword ks rest else .error .malformed

def colon (s : List Char) : Except Fault (List Char) :=
  match skipSpace s with
  | [] => .error .ended
  | ':' :: rest => .ok rest
  | _ => .error .malformed

/-! ### Numbers -/

/-- The digits before the point: a single zero, or digits that do not start with one. `cut` is the fault of a
    text that ends here. -/
def wholePart (cut : Fault) : Reader (List Char)
  | [] => .error cut
  | '0' :: rest =>
    if (rest.head?.map Char.isDigit).getD false then .error .malformed else .ok (['0'], rest)
  | c :: rest =>
    if c.isDigit then .ok (c :: rest.takeWhile Char.isDigit, rest.dropWhile Char.isDigit)
    else .error .malformed

/-- The digits after the point, none without a point. -/
def fractionPart (cut : Fault) : Reader (List Char)
  | '.' :: rest =>
    match rest.takeWhile Char.isDigit, rest.dropWhile Char.isDigit with
    | [], [] => .error cut
    | [], _ :: _ => .error .malformed
    | ds, rest => .ok (ds, rest)
  | rest => .ok ([], rest)

/-- The digits of an exponent, of which there has to be one. -/
def exponentDigits (cut : Fault) (rest : List Char) : Except Fault (Nat × List Char) :=
  match rest.takeWhile Char.isDigit, rest.dropWhile Char.isDigit with
  | [], [] => .error cut
  | [], _ :: _ => .error .malformed
  | ds, rest => .ok (ofDigits ds, rest)

/-- The power of ten after the digits, zero without one. -/
def exponentPart (cut : Fault) (s : List Char) : Except Fault (Int × List Char) :=
  let signed (rest : List Char) : Except Fault (Int × List Char) :=
    match rest with
    | '+' :: rest => (exponentDigits cut rest).map fun (n, rest) => ((n : Int), rest)
    | '-' :: rest => (exponentDigits cut rest).map fun (n, rest) => (-(n : Int), rest)
    | rest => (exponentDigits cut rest).map fun (n, rest) => ((n : Int), rest)
  match s with
  | 'e' :: rest => signed rest
  | 'E' :: rest => signed rest
  | rest => .ok (0, rest)

/-- A number, its sign aside. -/
def numeral (cut : Fault) : Reader Numeral := fun s => do
  let (whole, s) ← wholePart cut s
  let (fraction, s) ← fractionPart cut s
  let (exponent, s) ← exponentPart cut s
  return (⟨whole, fraction, exponent⟩, s)

/-! ### Strings -/

/-- The value of a hexadecimal digit, in either case. -/
def hexValue? (c : Char) : Option Nat :=
  if c.isDigit then some (c.toNat - '0'.toNat)
  else if 'a' ≤ c && c ≤ 'f' then some (c.toNat - 'a'.toNat + 10)
  else if 'A' ≤ c && c ≤ 'F' then some (c.toNat - 'A'.toNat + 10)
  else none

def utf8Length : List Char → Nat
  | [] => 0
  | c :: rest => c.utf8Size + utf8Length rest

/-- Four hexadecimal digits. With less than four bytes left the text has ended, whatever they are. -/
def fourHex (s : List Char) : Except Fault (Nat × List Char) :=
  match s with
  | a :: b :: c :: d :: rest =>
    match hexValue? a, hexValue? b, hexValue? c, hexValue? d with
    | some a, some b, some c, some d => .ok (((a * 16 + b) * 16 + c) * 16 + d, rest)
    | _, _, _, _ => .error .malformed
  | s => if utf8Length s < 4 then .error .ended else .error .malformed

/-- The character that a backslash and one letter stand for. -/
def shortEscape? : Char → Option Char
  | '"' => some '"'
  | '\\' => some '\\'
  | '/' => some '/'
  | 'b' => some '\x08'
  | 'f' => some '\x0c'
  | 'n' => some '\n'
  | 'r' => some '\r'
  | 't' => some '\t'
  | _ => none

/-- The second half of a surrogate pair, whose first half was `high`. -/
def lowHalf (high : Nat) : List Char → Except Fault (Char × List Char)
  | [] => .error .ended
  | ['\\'] => .error .ended
  | '\\' :: 'u' :: rest => do
    let (low, rest) ← fourHex rest
    if 0xDC00 ≤ low && low ≤ 0xDFFF then
      return (Char.ofNat (0x10000 + (high - 0xD800) * 0x400 + (low - 0xDC00)), rest)
    else throw .malformed
  | _ => .error .malformed

/-- The character that an escape stands for; the text starts after the backslash. Surrogates have to come in
    pairs. -/
def unescape : List Char → Except Fault (Char × List Char)
  | [] => .error .ended
  | 'u' :: rest => do
    let (n, rest) ← fourHex rest
    if 0xD800 ≤ n && n ≤ 0xDBFF then lowHalf n rest
    else if 0xDC00 ≤ n && n ≤ 0xDFFF then throw .malformed
    else return (Char.ofNat n, rest)
  | c :: rest =>
    match shortEscape? c with
    | some c => .ok (c, rest)
    | none => .error .malformed

/-- An escape that is only skipped: any four hexadecimal digits will do. -/
def skipEscape : List Char → Except Fault (List Char)
  | [] => .error .ended
  | 'u' :: rest => (fourHex rest).map (·.2)
  | c :: rest => if (shortEscape? c).isSome then .ok rest else .error .malformed

theorem length_of_fourHex {s r : List Char} {n : Nat} (h : fourHex s = .ok (n, r)) :
    r.length + 4 = s.length := by
  unfold fourHex at h
  split at h
  · split at h
    · simp only [Except.ok.injEq, Prod.mk.injEq] at h
      simp [h.2]
    · simp at h
  · split at h <;> simp at h

theorem length_of_lowHalf {high : Nat} {s r : List Char} {c : Char} (h : lowHalf high s = .ok (c, r)) :
    r.length < s.length := by
  unfold lowHalf at h
  split at h
  · simp at h
  · simp at h
  · next rest =>
    cases hf : fourHex rest with
    | error e => simp [hf, bind, Except.bind] at h
    | ok p =>
      obtain ⟨n, r'⟩ := p
      have hl := length_of_fourHex hf
      simp only [hf, bind, Except.bind] at h
      split at h
      · simp only [pure, Except.pure, Except.ok.injEq, Prod.mk.injEq] at h
        simp [← h.2]
        omega
      · simp [throw, throwThe, MonadExceptOf.throw] at h
  · simp at h

theorem length_of_unescape {s r : List Char} {c : Char} (h : unescape s = .ok (c, r)) :
    r.length < s.length := by
  unfold unescape at h
  split at h
  · simp at h
  · next rest =>
    cases hf : fourHex rest with
    | error e => simp [hf, bind, Except.bind] at h
    | ok p =>
      obtain ⟨n, r'⟩ := p
      have hl := length_of_fourHex hf
      simp only [hf, bind, Except.bind] at h
      split at h
      · have := length_of_lowHalf h
        simp
        omega
      · split at h
        · simp [throw, throwThe, MonadExceptOf.throw] at h
        · simp only [pure, Except.pure, Except.ok.injEq, Prod.mk.injEq] at h
          simp [← h.2]
          omega
  · split at h
    · simp only [Except.ok.injEq, Prod.mk.injEq] at h
      simp [← h.2]
    · simp at h

theorem length_of_skipEscape {s r : List Char} (h : skipEscape s = .ok r) : r.length < s.length := by
  unfold skipEscape at h
  split at h
  · simp at h
  · next rest =>
    cases hf : fourHex rest with
    | error e => simp [hf, Except.map] at h
    | ok p =>
      have hl := length_of_fourHex hf
      simp only [hf, Except.map, Except.ok.injEq] at h
      simp [← h]
      omega
  · split at h
    · simp only [Except.ok.injEq] at h
      simp [← h]
    · simp at h

/-- The characters of a string; the text starts after its opening quote. Control characters have to be
    escaped. -/
def stringBody (s : List Char) : Except Fault (List Char × List Char) :=
  match s with
  | [] => .error .ended
  | c :: rest =>
    if c = '"' then .ok ([], rest)
    else if c = '\\' then
      match h : unescape rest with
      | .error fault => .error fault
      | .ok (d, rest') =>
        have := length_of_unescape h
        (stringBody rest').map fun (cs, r) => (d :: cs, r)
    else if c < ' ' then .error .malformed
    else (stringBody rest).map fun (cs, r) => (c :: cs, r)
termination_by s.length

/-- The text after a string that is only skipped. -/
def skipString (s : List Char) : Except Fault (List Char) :=
  match s with
  | [] => .error .ended
  | c :: rest =>
    if c = '"' then .ok rest
    else if c = '\\' then
      match h : skipEscape rest with
      | .error fault => .error fault
      | .ok rest' =>
        have := length_of_skipEscape h
        skipString rest'
    else if c < ' ' then .error .malformed
    else skipString rest
termination_by s.length

/-! ### Skipping a value -/

mutual

/-- The text after a value of any shape. A number that breaks off is malformed here. -/
def skipValue : Nat → List Char → Except Fault (List Char)
  | 0, _ => .error .ended
  | fuel + 1, s =>
    match skipSpace s with
    | [] => .error .ended
    | '"' :: rest => skipString rest
    | 'n' :: rest => keyword ['u', 'l', 'l'] rest
    | 't' :: rest => keyword ['r', 'u', 'e'] rest
    | 'f' :: rest => keyword ['a', 'l', 's', 'e'] rest
    | '-' :: rest => (numeral .malformed rest).map (·.2)
    | '[' :: rest =>
      match skipSpace rest with
      | ']' :: rest => .ok rest
      | rest => skipItems fuel rest
    | '{' :: rest =>
      match skipSpace rest with
      | '}' :: rest => .ok rest
      | rest => skipMembers fuel rest
    | c :: rest => if c.isDigit then (numeral .malformed (c :: rest)).map (·.2) else .error .malformed

/-- The text after the items of a list, of which there is one at least, and its bracket. -/
def skipItems : Nat → List Char → Except Fault (List Char)
  | 0, _ => .error .ended
  | fuel + 1, s => do
    let s ← skipValue fuel s
    match skipSpace s with
    | [] => throw .ended
    | ']' :: rest => return rest
    | ',' :: rest => skipItems fuel rest
    | _ => throw .malformed

/-- The text after the members of an object, of which there is one at least, and its brace. -/
def skipMembers : Nat → List Char → Except Fault (List Char)
  | 0, _ => .error .ended
  | fuel + 1, s =>
    match skipSpace s with
    | [] => .error .ended
    | '"' :: rest => do
      let s ← skipString rest
      let s ← colon s
      let s ← skipValue fuel s
      match skipSpace s with
      | [] => throw .ended
      | '}' :: rest => return rest
      | ',' :: rest => skipMembers fuel rest
      | _ => throw .malformed
    | _ => .error .malformed

end

/-- The text after a value of any shape. No text of this length nests deeper than the bound on the calls. -/
def skip (s : List Char) : Except Fault (List Char) :=
  skipValue (2 * s.length + 2) s

/-! ### Values of a wanted shape -/

/-- The fault of a value that is not of the wanted shape: a list or an object does not fit at its first
    character, and any other value once it has been read. -/
def mismatch (s : List Char) : Fault :=
  let verdict {α : Type} (r : Except Fault α) : Fault :=
    match r with
    | .error fault => fault
    | .ok _ => .unsuitable
  let number (s : List Char) : Fault :=
    match numeral .ended s with
    | .error fault => fault
    | .ok (x, _) => if x.fits then .unsuitable else .malformed
  match skipSpace s with
  | [] => .ended
  | '"' :: rest => verdict (stringBody rest)
  | 'n' :: rest => verdict (keyword ['u', 'l', 'l'] rest)
  | 't' :: rest => verdict (keyword ['r', 'u', 'e'] rest)
  | 'f' :: rest => verdict (keyword ['a', 'l', 's', 'e'] rest)
  | '-' :: rest => number rest
  | '[' :: _ => .unsuitable
  | '{' :: _ => .unsuitable
  | c :: rest => if c.isDigit then number (c :: rest) else .malformed

def string : Reader String := fun s =>
  match skipSpace s with
  | '"' :: rest => (stringBody rest).map fun (cs, rest) => (String.ofList cs, rest)
  | rest => .error (mismatch rest)

def bool : Reader Bool := fun s =>
  match skipSpace s with
  | 't' :: rest => (keyword ['r', 'u', 'e'] rest).map fun rest => (true, rest)
  | 'f' :: rest => (keyword ['a', 'l', 's', 'e'] rest).map fun rest => (false, rest)
  | rest => .error (mismatch rest)

/-- A value that may be null. -/
def optional {α : Type} (read : Reader α) : Reader (Option α) := fun s =>
  match skipSpace s with
  | 'n' :: rest => (keyword ['u', 'l', 'l'] rest).map fun rest => (none, rest)
  | rest => (read rest).map fun (a, rest) => (some a, rest)

/-- A string that names a value; `find` says why a name is refused. -/
def named {α : Type} (find : String → Except String α) : Reader α := fun s => do
  let (name, s) ← string s
  match find name with
  | .ok a => return (a, s)
  | .error why => throw (.refused why)

/-! ### Objects -/

/-- The members of an object from the first letter of a key on; `step` takes over after each key. -/
def memberLoop {α : Type} (step : α → String → Reader α) : Nat → α → Reader α
  | 0, _, _ => .error .ended
  | fuel + 1, a, s => do
    let (key, s) ← stringBody s
    let (a, s) ← step a (String.ofList key) s
    match skipSpace s with
    | [] => throw .ended
    | '}' :: rest => return (a, rest)
    | ',' :: rest =>
      match skipSpace rest with
      | [] => throw .ended
      | '"' :: rest => memberLoop step fuel a rest
      | _ => throw .malformed
    | _ => throw .malformed

/-- The members of an object after its opening brace, one step for each. There are no more members than
    characters. -/
def members {α : Type} (step : α → String → Reader α) (a : α) : Reader α := fun s =>
  match skipSpace s with
  | [] => .error .ended
  | '}' :: rest => .ok (a, rest)
  | '"' :: rest => memberLoop step s.length a rest
  | _ => .error .malformed

/-- An object as a table. A key is looked at before the colon is; how a repeated key counts is up to
    `insert`. -/
def table {α κ ν : Type} (key : String → Except Fault κ) (value : Reader ν) (insert : α → κ → ν → α)
    (a : α) : Reader α := fun s =>
  match skipSpace s with
  | '{' :: rest =>
    members (fun a name s => do
      let k ← key name
      let s ← colon s
      let (v, s) ← value s
      return (insert a k v, s)) a rest
  | rest => .error (mismatch rest)

/-! ### Records -/

/-- A field of a record: its key, and how its value is read into the record. -/
structure Field (α : Type) where
  key : String
  read : α → Reader α

/-- The member with this key is read: one that is no field is skipped, and no field may come twice. -/
def recordStep {α : Type} (fields : List (Field α)) (state : List String × α) (name : String) :
    Reader (List String × α) := fun s =>
  match fields.find? (·.key == name) with
  | none => do
    let s ← colon s
    let s ← skip s
    return (state, s)
  | some field =>
    if state.1.contains name then .error .unsuitable
    else do
      let s ← colon s
      let (a, s) ← field.read state.2 s
      return ((name :: state.1, a), s)

/-- The fields of a record as the items of a list, in their order. A `complete` record has them all; others may
    break off. No further item is allowed. -/
def items {α : Type} (complete : Bool) : List (Field α) → Bool → α → Reader α
  | [], _, a, s =>
    match skipSpace s with
    | [] => .error .ended
    | ']' :: rest => .ok (a, rest)
    | _ => .error .malformed
  | field :: fields, first, a, s =>
    match skipSpace s with
    | [] => .error .ended
    | ']' :: rest => if complete then .error .unsuitable else .ok (a, rest)
    | c :: rest =>
      if first then do
        let (a, s) ← field.read a (c :: rest)
        items complete fields false a s
      else if c = ',' then
        match skipSpace rest with
        | [] => .error .ended
        | ']' :: _ => .error .malformed
        | rest => do
          let (a, s) ← field.read a rest
          items complete fields false a s
      else .error .malformed

/-- A record over the value `a`, written as an object or as a list. A field that is absent keeps its value in
    `a`, which is a fault where the record has to be `complete`. -/
def record {α : Type} (complete : Bool) (fields : List (Field α)) (a : α) : Reader α := fun s =>
  match skipSpace s with
  | '{' :: rest => do
    let ((seen, a), s) ← members (recordStep fields) ([], a) rest
    if complete && !(fields.all fun field => seen.contains field.key) then throw .unsuitable
    else return (a, s)
  | '[' :: rest => items complete fields true a rest
  | rest => .error (mismatch rest)

/-! ### Whole texts -/

/-- A text that holds one value and nothing else. -/
def document {α : Type} (read : Reader α) (text : String) : Except Fault α := do
  let (a, rest) ← read text.toList
  match skipSpace rest with
  | [] => return a
  | _ => throw .malformed

end Json
end Logbook
