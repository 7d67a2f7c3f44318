import Logbook.Template.Basic
import Logbook.Text.Letter

/-! Reading a template. A field is its name between braces, in any letter case and with blanks around it; the time
    may be followed by a colon and a format. Whatever stands between braces and is no field is literal text, and
    so are braces without a partner: every text is a template. -/

namespace Logbook
namespace Token

/-! ### Between the braces -/

/-- The time with the format that follows its name, if a colon and a specification do; a blank specification
    counts as none. -/
def timestamp? (suffix : List Char) : Option Token :=
  match Text.trimStart suffix with
  | [] => some (.timestamp default)
  | ':' :: spec =>
    match Text.trim spec with
    | [] => some (.timestamp default)
    | spec => some (.timestamp (DateFormat.ofSpec (String.ofList spec)))
  | _ => none

/-- The field with this name, the time aside. -/
def ofName? (name : String) : Option Token :=
  [(Field.message, Token.message), (.callerName, .callerName), (.callerLine, .callerLine),
   (.category, .category), (.level, .level)].findSome? fun (f, token) =>
    if Text.sameLetters f.name name then some token else none

def ofInner? (inner : List Char) : Option Token :=
  let name := Text.trim inner
  let size := Field.timestamp.name.length
  if inner.contains '{' then none
  else if Text.sameLetters (String.ofList (name.take size)) Field.timestamp.name then
    timestamp? (name.drop size)
  else ofName? (String.ofList name)

/-! ### Cutting the text -/

/-- The field that a text starts with, after its opening brace, and the text after it. -/
def cut? (s : List Char) : Option (Token × List Char) :=
  match s.dropWhile (· != '}') with
  | [] => none
  | _ :: rest => (ofInner? (s.takeWhile (· != '}'))).map fun token => (token, rest)

theorem length_of_cut? {s rest : List Char} {token : Token} (h : cut? s = some (token, rest)) :
    rest.length < s.length := by
  have hl := (List.dropWhile_sublist (l := s) (· != '}')).length_le
  unfold cut? at h
  split at h
  · simp at h
  · next hd =>
    rw [hd] at hl
    simp only [Option.map_eq_some_iff, Prod.mk.injEq] at h
    obtain ⟨_, _, _, rfl⟩ := h
    simp at hl
    omega

/-- The tokens of a text, each literal character by itself. -/
def pieces (s : List Char) : List Token :=
  match s with
  | [] => []
  | c :: rest =>
    if c = '{' then
      match h : cut? rest with
      | some (token, rest') =>
        have := length_of_cut? h
        token :: pieces rest'
      | none => .literal (String.singleton c) :: pieces rest
    else .literal (String.singleton c) :: pieces rest
termination_by s.length

/-- The tokens with neighbouring literals put together. -/
def merge : List Token → List Token
  | [] => []
  | .literal text :: rest =>
    match merge rest with
    | .literal more :: rest => .literal (text ++ more) :: rest
    | rest => .literal text :: rest
  | token :: rest => token :: merge rest

/-- The fields with the one that a token says, if it says one. -/
def note (fields : FieldSet) (token : Token) : FieldSet :=
  match token.field? with
  | some f => fields.insert f
  | none => fields

/-! ### Lemmas -/

theorem contains_note (fields : FieldSet) (token : Token) (f : Field) :
    (note fields token).contains f = true ↔ fields.contains f = true ∨ token.field? = some f := by
  unfold note
  split
  · next g hg => rw [hg, FieldSet.contains_insert, Bool.or_eq_true, beq_iff_eq, Option.some_inj, eq_comm (a := f)]
  · next hnone => simp [hnone]

/-- The fields that are noted while a text is read are those that its tokens say. -/
theorem contains_foldl_note {tokens : List Token} {fields : FieldSet} {f : Field} :
    (tokens.foldl note fields).contains f = true ↔
      fields.contains f = true ∨ ∃ token ∈ tokens, token.field? = some f := by
  induction tokens generalizing fields with
  | nil => simp
  | cons token tokens ih => simp [ih, contains_note, or_assoc]

/-- Putting literals together leaves the fields as they are, in their order. -/
theorem filterMap_merge (tokens : List Token) : (merge tokens).filterMap field? = tokens.filterMap field? := by
  have hliteral (text : String) (rest : List Token) :
      (literal text :: rest).filterMap field? = rest.filterMap field? := List.filterMap_cons_none rfl
  induction tokens using merge.induct with
  | case1 => rfl
  | case2 text rest more rest' hrest ih =>
    rw [hrest, hliteral] at ih
    simp only [merge, hrest, hliteral, ih]
  | case3 text rest hrest ih =>
    rw [merge, hliteral]
    split
    · next more rest' heq => exact absurd heq (hrest more rest')
    · rw [hliteral, ih]
  | case4 token rest hother ih => rw [merge, List.filterMap_cons, List.filterMap_cons, ih]; exact hother

end Token

namespace Template

/-- The template that a text is; blanks at its end do not count. Its fields are noted as the text is cut. -/
def compile (source : String) : Template :=
  let pieces := Token.pieces (Text.trimEnd source.toList)
  ⟨source, Token.merge pieces, pieces.foldl Token.note ∅, fun f => by
    rw [Token.contains_foldl_note, FieldSet.contains_empty, ← List.mem_filterMap, ← List.mem_filterMap,
      Token.filterMap_merge]
    simp⟩

/-- The template that is used where none is configured. -/
def defaultSource : String :=
  "\x7bTimestamp:yyyy-MM-dd HH:mm:ss.fff\x7d | \x7bCallerName\x7d | \x7bCategory\x7d | " ++
    "\x7bMessageLevel\x7d | \x7bMessage\x7d"

end Template
end Logbook
