import Logbook.Proofs.Json.Printed

/-! Reading a printed object of which a part may be refused. The fault of a part is the fault of the whole, and the
    first one counts. Main statements: a reader answers a printed table with what its entries come to one after the
    other, and a printed record with the fault of the first field whose value is refused. -/

namespace Logbook
namespace Json

variable {α : Type}

/-! ### Members -/

/-- The steps over the members of an object from `a` on end with this fault. -/
inductive Stops (step : α → String → Reader α) : α → List (String × Value) → Fault → Prop where
  | here {a : α} {key : String} {value : Value} {others : List (String × Value)} {fault : Fault}
      (first : ∀ depth rest, step a key (':' :: ' ' :: (pretty depth value ++ rest)) = .error fault) :
      Stops step a ((key, value) :: others) fault
  | later {a b : α} {key : String} {value : Value} {others : List (String × Value)} {fault : Fault}
      (first : ∀ depth rest, step a key (':' :: ' ' :: (pretty depth value ++ rest)) = .ok (b, rest))
      (next : Stops step b others fault) : Stops step a ((key, value) :: others) fault

/-- The steps over the members of an object from `a` on come to `r`. -/
def Ends (step : α → String → Reader α) (a : α) (ms : List (String × Value)) : Except Fault α → Prop
  | .ok b => Takes step a ms b
  | .error fault => Stops step a ms fault

section
variable {step : α → String → Reader α} {a : α} {key : String} {value : Value} {others : List (String × Value)}

theorem Ends.cons {r : Except Fault α} {f : α → Except Fault α}
    (first : ∀ depth rest, step a key (':' :: ' ' :: (pretty depth value ++ rest)) = r.map fun b => (b, rest))
    (next : ∀ b, r = .ok b → Ends step b others (f b)) : Ends step a ((key, value) :: others) (r >>= f) := by
  cases r with
  | error fault => exact Stops.here first
  | ok b =>
    have hnext := next b rfl
    show Ends step a ((key, value) :: others) (f b)
    cases hf : f b with
    | error fault => rw [hf] at hnext; exact Stops.later first hnext
    | ok c => rw [hf] at hnext; exact Takes.cons first hnext

theorem memberLoop_stops {fault : Fault} (h : Stops step a ((key, value) :: others) fault) (depth : Nat)
    (rest : List Char) {fuel : Nat} (hfuel : others.length < fuel) :
    memberLoop step fuel a (key.toList.flatMap escape ++ '"' :: ':' :: ' ' ::
      (pretty (depth + 1) value ++ (prettyRest depth others ++ (newLine depth ++ '}' :: rest)))) = .error fault := by
  induction others generalizing a key value fuel with
  | nil =>
    obtain ⟨fuel, rfl⟩ := Nat.exists_eq_succ_of_ne_zero (Nat.ne_of_gt (Nat.zero_lt_of_lt hfuel))
    cases h with
    | here first => simp only [memberLoop, stringBody_escapes, bind, Except.bind, String.ofList_toList, first]
    | later first next => cases next
  | cons second others ih =>
    obtain ⟨fuel, rfl⟩ := Nat.exists_eq_succ_of_ne_zero (Nat.ne_of_gt (Nat.zero_lt_of_lt hfuel))
    obtain ⟨key', value'⟩ := second
    cases h with
    | here first => simp only [memberLoop, stringBody_escapes, bind, Except.bind, String.ofList_toList, first]
    | later first next =>
      have hloop := ih next (Nat.lt_of_succ_lt_succ hfuel)
      simp only [memberLoop, stringBody_escapes, bind, Except.bind, String.ofList_toList, first, prettyRest,
        List.cons_append, List.append_assoc, skipSpace_cons (show isSpace ',' = false from rfl), skipSpace_newLine,
        quoted_append, skipSpace_cons (show isSpace '"' = false from rfl)]
      exact hloop

end

/-- The members of a printed object are read one by one, up to its closing brace or the first fault. -/
theorem members_ends (depth : Nat) (ms : List (String × Value)) (rest : List Char) :
    ∃ s, pretty depth (.object ms) ++ rest = '{' :: s ∧
      ∀ {β : Type} {step : β → String → Reader β} {a : β} {r : Except Fault β}, Ends step a ms r →
        members step a s = r.map fun b => (b, rest) := by
  obtain ⟨s, hs, htakes⟩ := members_pretty depth ms rest
  refine ⟨s, hs, fun {β step a r} h => ?_⟩
  cases r with
  | ok b => exact htakes h
  | error fault =>
    cases ms with
    | nil => cases h
    | cons first others =>
      obtain ⟨key, value⟩ := first
      have hmembers : s = newLine (depth + 1) ++ (quoted key ++ ':' :: ' ' ::
          (pretty (depth + 1) value ++ (prettyRest depth others ++ (newLine depth ++ '}' :: rest)))) := by
        simpa [pretty, List.append_assoc] using hs.symm
      have hlength := length_le_prettyRest depth others
      rw [hmembers]
      simp only [members, skipSpace_newLine, quoted_append, skipSpace_cons (show isSpace '"' = false from rfl)]
      refine memberLoop_stops h depth rest ?_
      simp only [List.length_append, List.length_cons]
      omega

/-! ### Tables -/

/-- A table is read entry by entry: first the key is looked up, then the value is read. -/
theorem answers_table {κ ν ρ : Type} {key : String → Except Fault κ} {value : Reader ν} {print : ρ → Value}
    {find : ρ → Except Fault ν} (insert : α → κ → ν → α) (hvalue : ∀ x, Answers value (print x) (find x)) (a : α)
    (entries : List (String × ρ)) :
    Answers (table key value insert a) (.object (entries.map fun e => (e.1, print e.2)))
      (entries.foldlM (fun t e => do return insert t (← key e.1) (← find e.2)) a) := by
  intro depth s rest h
  obtain ⟨t, ht, hmembers⟩ := members_ends depth (entries.map fun e => (e.1, print e.2)) rest
  simp only [table, h, ht]
  refine hmembers ?_
  clear h ht hmembers
  induction entries generalizing a with
  | nil => exact .nil a
  | cons e entries ih =>
    rw [List.map_cons, List.foldlM_cons]
    refine .cons (fun depth rest => ?_) fun b _ => ih b
    simp only [bind, Except.bind, colon_cons]
    cases key e.1 with
    | error fault => rfl
    | ok k =>
      simp only [(hvalue e.2).member]
      cases find e.2 <;> rfl

/-! ### Records -/

/-- The members give fields of a record their values, in the order of the fields, up to one whose value is refused. -/
inductive Breaks : α → List (Field α) → List (String × Value) → Fault → Prop where
  | here {a : α} {field : Field α} {fields : List (Field α)} {value : Value} {ms : List (String × Value)}
      {fault : Fault}
      (first : Answers (field.read a) value (.error fault)) :
      Breaks a (field :: fields) ((field.key, value) :: ms) fault
  | later {a b : α} {field : Field α} {fields : List (Field α)} {value : Value} {ms : List (String × Value)}
      {fault : Fault} (first : Reads (field.read a) value b) (others : Breaks b fields ms fault) :
      Breaks a (field :: fields) ((field.key, value) :: ms) fault

theorem Breaks.stops {a : α} {fields : List (Field α)} {ms : List (String × Value)} {fault : Fault}
    (h : Breaks a fields ms fault) (earlier : List (Field α)) (seen : List String)
    (hkeys : ((earlier ++ fields).map Field.key).Nodup) (hseen : ∀ key ∈ seen, key ∈ earlier.map Field.key) :
    Stops (recordStep (earlier ++ fields)) (seen, a) ms fault := by
  -- The induction is on the fields that are left; those that are done are the `earlier` ones.
  induction h generalizing earlier seen with
  | here first =>
    obtain ⟨hfind, hunseen⟩ := find?_field hkeys hseen
    refine .here fun depth rest => ?_
    simp only [recordStep, hfind, hunseen, Bool.false_eq_true, if_false, bind, Except.bind, colon_cons, first.member]
    rfl
  | @later a b field fields value ms fault first others ih =>
    have happend : earlier ++ field :: fields = (earlier ++ [field]) ++ fields := by simp
    obtain ⟨hfind, hunseen⟩ := find?_field hkeys hseen
    rw [happend] at hkeys
    have hothers := ih (earlier ++ [field]) (field.key :: seen) hkeys (mem_keys_concat field hseen)
    rw [← happend] at hothers
    refine .later (fun depth rest => ?_) hothers
    simp only [recordStep, hfind, hunseen, Bool.false_eq_true, if_false, bind, Except.bind, colon_cons, first.member]
    rfl

theorem answers_record {fields : List (Field α)} {a : α} {ms : List (String × Value)} {fault : Fault}
    (hkeys : (fields.map Field.key).Nodup) (h : Breaks a fields ms fault) :
    Answers (record false fields a) (.object ms) (.error fault) := by
  intro depth s rest hs
  have hstops := h.stops [] [] hkeys (by simp)
  rw [List.nil_append] at hstops
  obtain ⟨t, ht, hmembers⟩ := members_ends depth ms rest
  simp only [record, hs, ht, hmembers (r := .error fault) hstops]
  rfl

end Json
end Logbook
