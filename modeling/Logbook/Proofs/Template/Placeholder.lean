import Mathlib.Data.List.TakeWhile
import Logbook.Proofs.Text.Blank
import Logbook.Template.Compile

/-! Placeholders, said without the scanner. What stands between two braces is the name of a field, in any letter case
    and with blanks around it; after the name of the time a colon and a specification may follow. Main statement: the
    scanner finds a token after an opening brace exactly if a placeholder starts there. -/

namespace Logbook

namespace Field

/-- The token of a field that comes without a specification. -/
def token : Field → Token
  | .message => .message
  | .timestamp => .timestamp default
  | .callerName => .callerName
  | .callerLine => .callerLine
  | .category => .category
  | .level => .level

end Field

namespace Template

/-- The format that a specification asks for, without the blanks around it; a blank one asks for the default. -/
def formatOf (spec : List Char) : DateFormat :=
  if Text.trim spec = [] then default else .ofSpec (String.ofList (Text.trim spec))

/-- A text names the token: it is the name of a field, or the name of the time, a colon after any blanks, and a
    specification. Letter case does not count in a name, and blanks around the whole do not count. -/
inductive Names (inner : List Char) : Token → Prop where
  | field (f : Field) (named : Text.sameLetters (String.ofList (Text.trim inner)) f.name = true) : Names inner f.token
  | timed (name gap spec : List Char) (split : Text.trim inner = name ++ (gap ++ ':' :: spec))
      (named : Text.sameLetters (String.ofList name) Field.timestamp.name = true)
      (blank : ∀ c ∈ gap, Text.isBlank c = true) : Names inner (.timestamp (formatOf spec))

/-- Between an opening and a closing brace, `inner` makes a placeholder: it has no brace itself and names the token. -/
structure Placeholder (inner : List Char) (token : Token) : Prop where
  noOpen : '{' ∉ inner
  noClose : '}' ∉ inner
  names : Names inner token

/-! ### Names -/

theorem sameLetters_ofList {cs : List Char} {s : String} :
    Text.sameLetters (String.ofList cs) s = true ↔ cs.map Char.toLower = s.toList.map Char.toLower := by
  rw [Text.sameLetters_iff, String.toList_ofList]

/-- The name of the time is told from the names of other fields by its letters. -/
theorem ofName?_name (f : Field) (h : f ≠ .timestamp) :
    (f.name.toList.map Char.toLower).take Field.timestamp.name.length ≠
        Field.timestamp.name.toList.map Char.toLower ∧ Token.ofName? f.name = some f.token := by
  cases f with
  | timestamp => exact absurd rfl h
  | _ => decide

theorem ofName?_congr {name other : String} (h : Text.sameLetters name other = true) :
    Token.ofName? name = Token.ofName? other := by
  have hsame (f : String) : Text.sameLetters f name = Text.sameLetters f other := by
    rw [Text.sameLetters, Text.sameLetters, Text.sameLetters_iff.mp h]
  simp only [Token.ofName?, hsame]

theorem ofName?_eq_some {name : String} {token : Token} (h : Token.ofName? name = some token) :
    ∃ f : Field, Text.sameLetters name f.name = true ∧ f.token = token := by
  obtain ⟨⟨f, other⟩, hmem, hf⟩ := List.exists_of_findSome?_eq_some h
  obtain ⟨hname, htoken⟩ := Option.ite_none_right_eq_some.mp hf
  obtain rfl := Option.some.inj htoken
  refine ⟨f, Text.sameLetters_comm hname, ?_⟩
  simp only [List.mem_cons, Prod.mk.injEq, List.not_mem_nil, or_false] at hmem
  rcases hmem with ⟨rfl, rfl⟩ | ⟨rfl, rfl⟩ | ⟨rfl, rfl⟩ | ⟨rfl, rfl⟩ | ⟨rfl, rfl⟩ <;> rfl

theorem take_of_sameLetters {name : List Char}
    (h : Text.sameLetters (String.ofList name) Field.timestamp.name = true) (rest : List Char) :
    (name ++ rest).take Field.timestamp.name.length = name ∧
      (name ++ rest).drop Field.timestamp.name.length = rest := by
  have hlength : Field.timestamp.name.length = name.length := by
    have hmap := congrArg List.length (sameLetters_ofList.mp h)
    rw [List.length_map, List.length_map, String.length_toList] at hmap
    exact hmap.symm
  rw [hlength]
  exact ⟨List.take_left, List.drop_left⟩

/-! ### Between the braces -/

theorem timestamp?_spec {gap spec : List Char} (h : ∀ c ∈ gap, Text.isBlank c = true) :
    Token.timestamp? (gap ++ ':' :: spec) = some (.timestamp (formatOf spec)) := by
  have hstart : Text.trimStart (gap ++ ':' :: spec) = ':' :: spec := by
    rw [Text.trimStart_append_blank h]
    rfl
  simp only [Token.timestamp?, formatOf, hstart]
  split
  · next hspec => rw [if_pos hspec]
  · next hspec => rw [if_neg hspec]

/-- Where the scanner takes what follows the name for a time, nothing follows or a colon and a specification. -/
theorem timestamp?_eq_some {suffix : List Char} {token : Token} (h : Token.timestamp? suffix = some token) :
    (∀ c ∈ suffix, Text.isBlank c = true) ∧ token = .timestamp default ∨
      ∃ gap spec, suffix = gap ++ ':' :: spec ∧ (∀ c ∈ gap, Text.isBlank c = true) ∧
        token = .timestamp (formatOf spec) := by
  have hsplit : suffix.takeWhile Text.isBlank ++ Text.trimStart suffix = suffix := List.takeWhile_append_dropWhile
  have hgap : ∀ c ∈ suffix.takeWhile Text.isBlank, Text.isBlank c = true := fun c hc => List.mem_takeWhile_imp hc
  cases hstart : Text.trimStart suffix with
  | nil =>
    have hblank : ∀ c ∈ suffix, Text.isBlank c = true := List.dropWhile_eq_nil_iff.mp hstart
    simp only [Token.timestamp?, hstart, Option.some.injEq] at h
    exact Or.inl ⟨hblank, h.symm⟩
  | cons c spec =>
    by_cases hc : c = ':'
    · subst hc
      rw [hstart] at hsplit
      rw [← hsplit, timestamp?_spec hgap] at h
      exact Or.inr ⟨_, spec, hsplit.symm, hgap, (Option.some.inj h).symm⟩
    · simp [Token.timestamp?, hstart, hc] at h

theorem names_of_ofInner? {inner : List Char} {token : Token} (h : Token.ofInner? inner = some token) :
    '{' ∉ inner ∧ Names inner token := by
  unfold Token.ofInner? at h
  split at h
  · cases h
  · next hopen =>
    refine ⟨by simpa using hopen, ?_⟩
    dsimp only at h
    split at h
    · next hname =>
      have hjoin := List.take_append_drop Field.timestamp.name.length (Text.trim inner)
      rcases timestamp?_eq_some h with ⟨hblank, rfl⟩ | ⟨gap, spec, hsuffix, hgap, rfl⟩
      · have hnothing := Text.eq_nil_of_trim_eq_append hjoin.symm hblank
        rw [hnothing, List.append_nil] at hjoin
        rw [hjoin] at hname
        exact .field .timestamp hname
      · exact .timed _ gap spec (by rw [← hsuffix, hjoin]) hname hgap
    · obtain ⟨f, hname, rfl⟩ := ofName?_eq_some h
      exact .field f hname

theorem ofInner?_of_names {inner : List Char} {token : Token} (hopen : '{' ∉ inner) (h : Names inner token) :
    Token.ofInner? inner = some token := by
  have hcontains : inner.contains '{' = false := by simpa using hopen
  simp only [Token.ofInner?, hcontains, Bool.false_eq_true, if_false]
  cases h with
  | field f named =>
    by_cases hf : f = .timestamp
    · subst hf
      obtain ⟨htake, hdrop⟩ := take_of_sameLetters named []
      rw [List.append_nil] at htake hdrop
      rw [htake, hdrop, if_pos named]
      rfl
    · obtain ⟨hother, hname⟩ := ofName?_name f hf
      have hnot : ¬Text.sameLetters (String.ofList ((Text.trim inner).take Field.timestamp.name.length))
          Field.timestamp.name = true := by
        rw [sameLetters_ofList, List.map_take, sameLetters_ofList.mp named]
        exact hother
      rw [if_neg hnot, ofName?_congr named, hname]
  | timed name gap spec split named blank =>
    obtain ⟨htake, hdrop⟩ := take_of_sameLetters named (gap ++ ':' :: spec)
    rw [split, htake, hdrop, if_pos named, timestamp?_spec blank]

/-- What stands between two braces names one token at most. -/
theorem Placeholder.token_unique {inner : List Char} {token token' : Token} (h : Placeholder inner token)
    (h' : Placeholder inner token') : token = token' :=
  Option.some.inj ((ofInner?_of_names h.noOpen h.names).symm.trans (ofInner?_of_names h'.noOpen h'.names))

theorem Placeholder.field?_isSome {inner : List Char} {token : Token} (h : Placeholder inner token) :
    token.field?.isSome = true := by
  cases h.names with
  | field f named => cases f <;> rfl
  | timed name gap spec split named blank => rfl

/-! ### After an opening brace -/

/-- The text before the first closing brace. -/
theorem takeWhile_inner {inner : List Char} (h : '}' ∉ inner) (rest : List Char) :
    (inner ++ '}' :: rest).takeWhile (· != '}') = inner := by
  have hplain : ∀ c ∈ inner, (c != '}') = true := fun c hc => bne_iff_ne.mpr fun heq => h (heq ▸ hc)
  rw [List.takeWhile_append_of_pos hplain]
  simp

/-- After an opening brace the scanner finds the token of a placeholder, and the text after its closing brace, exactly
    if a placeholder starts with that brace. -/
theorem cut?_eq_some_iff {s rest : List Char} {token : Token} :
    Token.cut? s = some (token, rest) ↔ ∃ inner, s = inner ++ '}' :: rest ∧ Placeholder inner token := by
  constructor
  · intro h
    unfold Token.cut? at h
    split at h
    · cases h
    · next c tail hdrop =>
      obtain ⟨found, hfound, heq⟩ := Option.map_eq_some_iff.mp h
      obtain ⟨rfl, rfl⟩ := Prod.mk.inj heq
      obtain ⟨hopen, hnames⟩ := names_of_ofInner? hfound
      have hclose : '}' ∉ s.takeWhile (· != '}') := fun hmem => by simpa using List.mem_takeWhile_imp hmem
      have hc : c = '}' := by
        have hnot := List.head?_dropWhile_not (· != '}') s
        rw [hdrop] at hnot
        simpa using hnot
      have hjoin : s.takeWhile (· != '}') ++ s.dropWhile (· != '}') = s := List.takeWhile_append_dropWhile
      rw [hdrop, hc] at hjoin
      exact ⟨_, hjoin.symm, hopen, hclose, hnames⟩
  · rintro ⟨inner, rfl, hopen, hclose, hnames⟩
    have hplain : ∀ c ∈ inner, (c != '}') = true := fun c hc => bne_iff_ne.mpr fun heq => hclose (heq ▸ hc)
    have hdrop : (inner ++ '}' :: rest).dropWhile (· != '}') = '}' :: rest := by
      rw [List.dropWhile_append_of_pos hplain]
      rfl
    simp only [Token.cut?, hdrop, takeWhile_inner hclose, ofInner?_of_names hopen hnames, Option.map_some]

end Template
end Logbook
