import Mathlib.Data.List.Nodup
import Logbook.Json.Printer
import Logbook.Json.Reader

/-! Reading what was printed. A string comes back character by character, whatever characters it has; an object comes
    back member by member, whether it is read as a table or as a record. Main statements: a reader takes a printed
    value for what it was printed from and stops right after it, at every depth. -/

namespace Logbook
namespace Json

/-! ### Blanks -/

theorem skipSpace_cons {c : Char} (h : isSpace c = false) (s : List Char) : skipSpace (c :: s) = c :: s := by
  rw [skipSpace, List.dropWhile_cons_of_neg (by simp [h])]

@[simp] theorem skipSpace_blank (s : List Char) : skipSpace (' ' :: s) = skipSpace s := rfl

@[simp] theorem skipSpace_newLine (depth : Nat) (s : List Char) : skipSpace (newLine depth ++ s) = skipSpace s := by
  refine List.dropWhile_append_of_pos fun c hc => ?_
  rcases List.mem_cons.mp hc with rfl | hc
  · rfl
  · rw [List.eq_of_mem_replicate hc]
    rfl

/-! ### Strings -/

theorem hexValue?_hexDigit : ∀ n < 16, hexValue? (hexDigit n) = some n := by
  decide

/-- The four digits of a control character. -/
theorem fourHex_control {n : Nat} (h : n < 256) (s : List Char) :
    fourHex ('0' :: '0' :: hexDigit (n / 16) :: hexDigit (n % 16) :: s) = .ok (n, s) := by
  have hzero : hexValue? '0' = some 0 := by decide
  have hhigh : hexValue? (hexDigit (n / 16)) = some (n / 16) := hexValue?_hexDigit _ (by omega)
  have hlow : hexValue? (hexDigit (n % 16)) = some (n % 16) := hexValue?_hexDigit _ (by omega)
  have hn : ((0 * 16 + 0) * 16 + n / 16) * 16 + n % 16 = n := by omega
  simp only [fourHex, hzero, hhigh, hlow, hn]

theorem unescape_control {c : Char} (h : c < ' ') (s : List Char) :
    unescape ('u' :: '0' :: '0' :: hexDigit (c.toNat / 16) :: hexDigit (c.toNat % 16) :: s) = .ok (c, s) := by
  have hc : c.toNat < 32 := h
  simp only [unescape, fourHex_control (show c.toNat < 256 by omega), bind, Except.bind]
  rw [if_neg (by simp; omega), if_neg (by simp; omega), Char.ofNat_toNat]
  rfl

theorem stringBody_escaped {s rest : List Char} {c : Char} (h : unescape s = .ok (c, rest)) :
    stringBody ('\\' :: s) = (stringBody rest).map fun (cs, r) => (c :: cs, r) := by
  rw [stringBody, if_neg (by decide), if_pos rfl]
  split
  · next fault hfault => rw [h] at hfault; cases hfault
  · next d rest' hd =>
    rw [h] at hd
    cases hd
    rfl

/-- A character is read back as it was, however it is written. -/
theorem stringBody_escape (c : Char) (s : List Char) :
    stringBody (escape c ++ s) = (stringBody s).map fun (cs, r) => (c :: cs, r) := by
  by_cases hshort : c ∈ ['"', '\\', '\x08', '\x0c', '\n', '\r', '\t']
  · simp only [List.mem_cons, List.not_mem_nil, or_false] at hshort
    rcases hshort with rfl | rfl | rfl | rfl | rfl | rfl | rfl <;> exact stringBody_escaped rfl
  · simp only [List.mem_cons, List.not_mem_nil, or_false, not_or] at hshort
    obtain ⟨hquote, hbackslash, hothers⟩ := hshort
    by_cases hcontrol : c < ' '
    · have hescape : escape c = ['\\', 'u', '0', '0', hexDigit (c.toNat / 16), hexDigit (c.toNat % 16)] := by
        simp only [escape, hquote, hbackslash, hothers, hcontrol, if_true, if_false]
      rw [hescape]
      exact stringBody_escaped (unescape_control hcontrol s)
    · have hescape : escape c = [c] := by simp only [escape, hquote, hbackslash, hothers, hcontrol, if_false]
      rw [hescape, List.singleton_append, stringBody, if_neg hquote, if_neg hbackslash, if_neg hcontrol]

theorem stringBody_escapes (cs rest : List Char) :
    stringBody (cs.flatMap escape ++ '"' :: rest) = .ok (cs, rest) := by
  induction cs with
  | nil => rw [List.flatMap_nil, List.nil_append, stringBody, if_pos rfl]
  | cons c cs ih =>
    rw [List.flatMap_cons, List.append_assoc, stringBody_escape, ih]
    rfl

theorem quoted_append (s : String) (rest : List Char) :
    quoted s ++ rest = '"' :: (s.toList.flatMap escape ++ '"' :: rest) := by
  simp [quoted]

/-! ### Values -/

/-- A printed value does not start with a blank. -/
theorem skipSpace_pretty (depth : Nat) (v : Value) (rest : List Char) :
    skipSpace (pretty depth v ++ rest) = pretty depth v ++ rest := by
  cases v with
  | text s => exact skipSpace_cons rfl _
  | truth b => cases b <;> exact skipSpace_cons rfl _
  | object members =>
    cases members with
    | nil => rw [pretty]; exact skipSpace_cons rfl _
    | cons first others => rw [pretty]; exact skipSpace_cons rfl _

variable {α β : Type}

/-- The reader answers the printed value with `r`, and stops right after it if that is no fault. -/
def Answers (read : Reader α) (v : Value) (r : Except Fault α) : Prop :=
  ∀ depth s rest, skipSpace s = pretty depth v ++ rest → read s = r.map fun a => (a, rest)

/-- The reader takes the printed value for `a` and stops right after it. -/
def Reads (read : Reader α) (v : Value) (a : α) : Prop :=
  ∀ depth s rest, skipSpace s = pretty depth v ++ rest → read s = .ok (a, rest)

section
variable {read : Reader α} {v : Value} {r : Except Fault α}

theorem Reads.answers {a : α} (h : Reads read v a) : Answers read v (.ok a) := h

theorem Answers.reads {a : α} (h : Answers read v r) (hr : r = .ok a) : Reads read v a := by
  rwa [hr] at h

theorem Answers.refuses {fault : Fault} (h : Answers read v r) (hr : r = .error fault) :
    Answers read v (.error fault) := by
  rwa [hr] at h

theorem reads_string (text : String) : Reads string (.text text) text := by
  intro depth s rest h
  rw [pretty, quoted_append] at h
  simp only [string, h, stringBody_escapes, Except.map, String.ofList_toList]

theorem reads_bool (b : Bool) : Reads bool (.truth b) b := by
  intro depth s rest h
  rw [pretty] at h
  cases b <;> simp [bool, h, word, keyword, Except.map]

theorem reads_named {find : String → Except String α} {name : String} {a : α} (h : find name = .ok a) :
    Reads (named find) (.text name) a := by
  intro depth s rest hs
  simp only [named, reads_string name depth s rest hs, bind, Except.bind, h]
  rfl

theorem answers_optional {text : String} (h : Answers read (.text text) r) :
    Answers (optional read) (.text text) (r.map some) := by
  intro depth s rest hs
  have hread := h depth _ rest (skipSpace_pretty depth _ rest)
  rw [pretty, quoted_append] at hs hread
  unfold optional
  split
  · next hnull => rw [hs] at hnull; cases hnull
  · rw [hs, hread]
    cases r <;> rfl

theorem reads_optional {text : String} {a : α} (h : Reads read (.text text) a) :
    Reads (optional read) (.text text) (some a) :=
  (answers_optional h.answers).reads rfl

theorem Reads.map {a : α} {b : β} {f : α × List Char → β × List Char} (h : Reads read v a)
    (hf : ∀ rest, f (a, rest) = (b, rest)) : Reads (fun s => (read s).map f) v b := by
  intro depth s rest hs
  simp only [h depth s rest hs, Except.map, hf]

theorem Answers.map_error {fault : Fault} (h : Answers read v (.error fault)) {f : α × List Char → β × List Char} :
    Answers (fun s => (read s).map f) v (.error fault) := by
  intro depth s rest hs
  simp only [h depth s rest hs]
  rfl

/-- A value is read after the colon and the blank in front of it. -/
theorem Answers.member (h : Answers read v r) (depth : Nat) (rest : List Char) :
    read (' ' :: (pretty depth v ++ rest)) = r.map fun a => (a, rest) :=
  h depth _ rest (by rw [skipSpace_blank, skipSpace_pretty])

theorem Reads.member {a : α} (h : Reads read v a) (depth : Nat) (rest : List Char) :
    read (' ' :: (pretty depth v ++ rest)) = .ok (a, rest) :=
  h.answers.member depth rest

end

theorem colon_cons (s : List Char) : colon (':' :: s) = .ok s := rfl

/-! ### Members -/

/-- The steps over the members of an object take `a` to the last value, each reading its member right after the
    key. -/
inductive Takes (step : α → String → Reader α) : α → List (String × Value) → α → Prop where
  | nil (a : α) : Takes step a [] a
  | cons {a b c : α} {key : String} {value : Value} {others : List (String × Value)}
      (first : ∀ depth rest, step a key (':' :: ' ' :: (pretty depth value ++ rest)) = .ok (b, rest))
      (next : Takes step b others c) : Takes step a ((key, value) :: others) c

theorem memberLoop_pretty {step : α → String → Reader α} {a b : α} {key : String} {value : Value}
    {others : List (String × Value)} (h : Takes step a ((key, value) :: others) b) (depth : Nat) (rest : List Char)
    {fuel : Nat} (hfuel : others.length < fuel) :
    memberLoop step fuel a (key.toList.flatMap escape ++ '"' :: ':' :: ' ' ::
      (pretty (depth + 1) value ++ (prettyRest depth others ++ (newLine depth ++ '}' :: rest)))) =
        .ok (b, rest) := by
  induction others generalizing a key value fuel with
  | nil =>
    obtain ⟨fuel, rfl⟩ := Nat.exists_eq_succ_of_ne_zero (Nat.ne_of_gt (Nat.zero_lt_of_lt hfuel))
    cases h with
    | cons first next =>
      cases next
      simp only [memberLoop, stringBody_escapes, bind, Except.bind, String.ofList_toList, first, prettyRest,
        List.nil_append, skipSpace_newLine, skipSpace_cons (show isSpace '}' = false from rfl)]
      rfl
  | cons second others ih =>
    obtain ⟨fuel, rfl⟩ := Nat.exists_eq_succ_of_ne_zero (Nat.ne_of_gt (Nat.zero_lt_of_lt hfuel))
    obtain ⟨key', value'⟩ := second
    cases h with
    | cons first next =>
      have hloop := ih next (Nat.lt_of_succ_lt_succ hfuel)
      simp only [memberLoop, stringBody_escapes, bind, Except.bind, String.ofList_toList, first, prettyRest,
        List.cons_append, List.append_assoc, skipSpace_cons (show isSpace ',' = false from rfl), skipSpace_newLine,
        quoted_append, skipSpace_cons (show isSpace '"' = false from rfl)]
      exact hloop

theorem length_le_prettyRest (depth : Nat) (members : List (String × Value)) :
    members.length ≤ (prettyRest depth members).length := by
  induction members with
  | nil => exact Nat.zero_le _
  | cons first others ih =>
    simp only [prettyRest, List.length_cons, List.length_append]
    omega

/-- The members of a printed object are read one by one, up to its closing brace. -/
theorem members_pretty (depth : Nat) (ms : List (String × Value)) (rest : List Char) :
    ∃ s, pretty depth (.object ms) ++ rest = '{' :: s ∧
      ∀ {β : Type} {step : β → String → Reader β} {a b : β}, Takes step a ms b →
        members step a s = .ok (b, rest) := by
  cases ms with
  | nil =>
    refine ⟨'}' :: rest, by simp [pretty], fun h => ?_⟩
    cases h
    rfl
  | cons first others =>
    obtain ⟨key, value⟩ := first
    refine ⟨newLine (depth + 1) ++ (quoted key ++ ':' :: ' ' ::
      (pretty (depth + 1) value ++ (prettyRest depth others ++ (newLine depth ++ '}' :: rest)))),
      by simp [pretty, List.append_assoc], fun h => ?_⟩
    simp only [members, skipSpace_newLine, quoted_append, skipSpace_cons (show isSpace '"' = false from rfl)]
    refine memberLoop_pretty h depth rest ?_
    have hlength := length_le_prettyRest depth others
    simp only [List.length_append, List.length_cons]
    omega

/-! ### Tables -/

/-- A table is read from what its entries are printed as, one insertion after the other. -/
theorem reads_table {κ ν : Type} {key : String → Except Fault κ} {value : Reader ν} {print : ν → Value}
    (name : κ → String) (insert : α → κ → ν → α) (hkey : ∀ k, key (name k) = .ok k)
    (hvalue : ∀ v, Reads value (print v) v) (a : α) (entries : List (κ × ν)) :
    Reads (table key value insert a) (.object (entries.map fun e => (name e.1, print e.2)))
      (entries.foldl (fun t e => insert t e.1 e.2) a) := by
  intro depth s rest h
  obtain ⟨t, ht, hmembers⟩ := members_pretty depth (entries.map fun e => (name e.1, print e.2)) rest
  simp only [table, h, ht]
  refine hmembers ?_
  clear h ht hmembers
  induction entries generalizing a with
  | nil => exact .nil a
  | cons e entries ih =>
    refine .cons (fun depth rest => ?_) (ih (insert a e.1 e.2))
    simp only [hkey, bind, Except.bind, colon_cons, (hvalue e.2).member]
    rfl

/-! ### Records -/

/-- The members give fields of a record their values, in the order of the fields; a field may be left out. -/
inductive Fills : α → List (Field α) → List (String × Value) → α → Prop where
  | nil (a : α) : Fills a [] [] a
  | skip {a b : α} {field : Field α} {fields : List (Field α)} {ms : List (String × Value)}
      (others : Fills a fields ms b) : Fills a (field :: fields) ms b
  | cons {a b c : α} {field : Field α} {fields : List (Field α)} {value : Value} {ms : List (String × Value)}
      (first : Reads (field.read a) value b) (others : Fills b fields ms c) :
      Fills a (field :: fields) ((field.key, value) :: ms) c

/-- A field whose key is not that of another one is found by its key, and is new after earlier ones. -/
theorem find?_field {earlier fields : List (Field α)} {field : Field α} {seen : List String}
    (hkeys : ((earlier ++ field :: fields).map Field.key).Nodup) (hseen : ∀ key ∈ seen, key ∈ earlier.map Field.key) :
    (earlier ++ field :: fields).find? (·.key == field.key) = some field ∧ seen.contains field.key = false := by
  have hnew : field.key ∉ earlier.map Field.key := by
    rw [List.map_append, List.map_cons] at hkeys
    exact fun hmem => List.disjoint_of_nodup_append hkeys hmem List.mem_cons_self
  constructor
  · rw [List.find?_append, List.find?_eq_none.mpr]
    · simp
    · intro other hother hkey
      exact hnew (List.mem_map.mpr ⟨other, hother, eq_of_beq hkey⟩)
  · rw [List.contains_eq_mem, decide_eq_false_iff_not]
    exact fun hmem => hnew (hseen _ hmem)

theorem mem_keys_concat {earlier : List (Field α)} {seen : List String} (field : Field α)
    (hseen : ∀ key ∈ seen, key ∈ earlier.map Field.key) :
    ∀ key ∈ field.key :: seen, key ∈ (earlier ++ [field]).map Field.key := by
  intro key hkey
  rw [List.map_append]
  rcases List.mem_cons.mp hkey with rfl | hkey
  · exact List.mem_append_right _ List.mem_cons_self
  · exact List.mem_append_left _ (hseen key hkey)

theorem Fills.takes {a b : α} {fields : List (Field α)} {ms : List (String × Value)} (h : Fills a fields ms b)
    (earlier : List (Field α)) (seen : List String) (hkeys : ((earlier ++ fields).map Field.key).Nodup)
    (hseen : ∀ key ∈ seen, key ∈ earlier.map Field.key) :
    ∃ seen', Takes (recordStep (earlier ++ fields)) (seen, a) ms (seen', b) := by
  -- The induction is on the fields that are left; those that are done are the `earlier` ones.
  induction h generalizing earlier seen with
  | nil a => exact ⟨seen, .nil _⟩
  | @skip a b field fields ms others ih =>
    have happend : earlier ++ field :: fields = (earlier ++ [field]) ++ fields := by simp
    rw [happend] at hkeys ⊢
    exact ih (earlier ++ [field]) seen hkeys fun key hkey =>
      mem_keys_concat field hseen key (List.mem_cons_of_mem _ hkey)
  | @cons a b c field fields value ms first others ih =>
    have happend : earlier ++ field :: fields = (earlier ++ [field]) ++ fields := by simp
    obtain ⟨hfind, hunseen⟩ := find?_field hkeys hseen
    rw [happend] at hkeys
    obtain ⟨seen', hothers⟩ := ih (earlier ++ [field]) (field.key :: seen) hkeys (mem_keys_concat field hseen)
    rw [← happend] at hothers
    refine ⟨seen', .cons (fun depth rest => ?_) hothers⟩
    simp only [recordStep, hfind, hunseen, Bool.false_eq_true, if_false, bind, Except.bind, colon_cons, first.member]
    rfl

/-- A record is read from what its fields are printed as. -/
theorem reads_record {fields : List (Field α)} {a b : α} {ms : List (String × Value)}
    (hkeys : (fields.map Field.key).Nodup) (h : Fills a fields ms b) :
    Reads (record false fields a) (.object ms) b := by
  intro depth s rest hs
  obtain ⟨seen', htakes⟩ := h.takes [] [] hkeys (by simp)
  rw [List.nil_append] at htakes
  obtain ⟨t, ht, hmembers⟩ := members_pretty depth ms rest
  simp only [record, hs, ht, hmembers htakes, bind, Except.bind, Bool.false_and, Bool.false_eq_true, if_false]
  rfl

/-! ### Whole texts -/

/-- A printed value is all that its text holds. -/
theorem document_answers {read : Reader α} {v : Value} {r : Except Fault α} (h : Answers read v r) :
    document read v.prettyText = r := by
  have hread : read (pretty 0 v) = r.map fun a => (a, []) := by
    have hpretty := h 0 (pretty 0 v ++ []) [] (skipSpace_pretty 0 v [])
    rwa [List.append_nil] at hpretty
  simp only [document, Value.prettyText, String.toList_ofList, hread]
  cases r <;> rfl

theorem document_prettyText {read : Reader α} {v : Value} {a : α} (h : Reads read v a) :
    document read v.prettyText = .ok a :=
  document_answers h.answers

end Json
end Logbook
