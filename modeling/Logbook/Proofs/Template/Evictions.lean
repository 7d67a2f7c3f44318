import Mathlib.Data.List.Induction
import Logbook.Proofs.Since
import Logbook.Proofs.Template.Cache

/-! Which lookups of a cache hand out a template again. The cache does not tell one compilation of a text from another,
    so it is compared with one whose templates are numbered by the lookup they were compiled in. Main statement: a
    template is handed out again exactly if its text was looked up since the last eviction, which empties the cache,
    and there is one exactly when a missing text comes to a full cache. -/

namespace Logbook

/-! ### Evictions -/

namespace TemplateCache

/-- A template that is kept is lost when this text is looked up. -/
def Evicts (c : TemplateCache) (source : String) : Prop :=
  ∃ entry ∈ c.entries, entry ∉ (c.get source).2.entries

/-- There is room for one template at least, there are not more than there is room for, and each has a text of its
    own. -/
structure Tidy (c : TemplateCache) : Prop where
  room : 1 ≤ c.limit
  fits : c.size ≤ c.limit
  distinct : (c.entries.map Prod.fst).Nodup

section
variable {c : TemplateCache} {source : String}

theorem find?_eq_none_iff : c.find? source = none ↔ source ∉ c.entries.map Prod.fst := by
  rw [find?, List.lookup_eq_none_iff]
  simp only [List.mem_map, not_exists, not_and, bne_iff_ne]
  exact forall₂_congr fun entry _ => ne_comm

theorem get_of_some {template : Template} (h : c.find? source = some template) : c.get source = (template, c) := by
  simp [get, h]

theorem get_of_room (h : c.find? source = none) (hroom : c.size < c.limit) :
    c.get source = (.compile source, { c with entries := (source, .compile source) :: c.entries }) := by
  simp [get, h, Nat.not_le_of_lt hroom]

theorem get_of_full (h : c.find? source = none) (hfull : c.limit ≤ c.size) :
    c.get source = (.compile source, { c with entries := [(source, .compile source)] }) := by
  simp [get, h, hfull]

theorem get_limit (c : TemplateCache) (source : String) : (c.get source).2.limit = c.limit := by
  unfold get
  split <;> rfl

theorem Tidy.get (h : c.Tidy) (source : String) : (c.get source).2.Tidy := by
  cases hfind : c.find? source with
  | some template => rwa [get_of_some hfind]
  | none =>
    rcases Nat.lt_or_ge c.size c.limit with hroom | hfull
    · rw [get_of_room hfind hroom]
      exact ⟨h.room, hroom, List.nodup_cons.mpr ⟨find?_eq_none_iff.mp hfind, h.distinct⟩⟩
    · rw [get_of_full hfind hfull]
      exact ⟨h.room, h.room, by simp⟩

/-- An eviction takes a missing text and a full cache. -/
theorem Tidy.evicts_iff (h : c.Tidy) : c.Evicts source ↔ c.find? source = none ∧ c.size = c.limit := by
  cases hfind : c.find? source with
  | some template => simp [Evicts, get_of_some hfind]
  | none =>
    rw [eq_self, true_and, Evicts]
    rcases Nat.lt_or_ge c.size c.limit with hroom | hfull
    · rw [get_of_room hfind hroom]
      exact iff_of_false (fun ⟨entry, hentry, hlost⟩ => hlost (List.mem_cons_of_mem _ hentry)) (Nat.ne_of_lt hroom)
    · rw [get_of_full hfind hfull]
      refine iff_of_true ?_ (Nat.le_antisymm h.fits hfull)
      -- Any entry will do, since the only one that is kept has another text.
      obtain ⟨entry, hentry⟩ := List.exists_mem_of_length_pos (Nat.lt_of_lt_of_le h.room hfull)
      refine ⟨entry, hentry, fun hkept => find?_eq_none_iff.mp hfind ?_⟩
      exact List.mem_map.mpr ⟨entry, hentry, by rw [List.mem_singleton.mp hkept]⟩

end

section
variable (capacity : Nat) (past : List String)

theorem limit_run (c : TemplateCache) : (c.run past).limit = c.limit := by
  induction past generalizing c with
  | nil => rfl
  | cons source past ih => rw [run, ih, get_limit]

theorem Tidy.run {c : TemplateCache} (h : c.Tidy) : (c.run past).Tidy := by
  induction past generalizing c with
  | nil => exact h
  | cons source past ih => exact ih (h.get source)

theorem tidy_empty : (empty capacity).Tidy :=
  ⟨Nat.le_max_right _ _, Nat.zero_le _, List.nodup_nil⟩

end
end TemplateCache

/-! ### Templates that can be told apart -/

/-- A template as one object among others, with the number of the lookup that it was compiled in. -/
structure SharedTemplate where
  number : Nat
  template : Template

/-- A cache whose templates can be told apart. It counts the lookups. -/
structure SharingCache where
  limit : Nat
  entries : List (String × SharedTemplate)
  lookups : Nat

namespace SharingCache

def empty (capacity : Nat) : SharingCache :=
  ⟨max capacity 1, [], 0⟩

/-- The object for this text, whether it was kept or is made now, and the cache that keeps it. -/
def get (c : SharingCache) (source : String) : SharedTemplate × SharingCache :=
  match c.entries.lookup source with
  | some object => (object, { c with lookups := c.lookups + 1 })
  | none =>
    let object := ⟨c.lookups, .compile source⟩
    let kept := if c.limit ≤ c.entries.length then [] else c.entries
    (object, { c with entries := (source, object) :: kept, lookups := c.lookups + 1 })

/-- The cache as it is if nobody tells its templates apart. -/
def plain (c : SharingCache) : TemplateCache :=
  ⟨c.limit, c.entries.map fun entry => (entry.1, entry.2.template)⟩

/-- The cache after texts were looked up one after the other. -/
def run (c : SharingCache) : List String → SharingCache
  | [] => c
  | source :: sources => (c.get source).2.run sources

end SharingCache

/-- A lookup: the text, the cache before it, and the object that it handed out. -/
structure Lookup where
  source : String
  before : SharingCache
  object : SharedTemplate

/-- A template was lost in this lookup. -/
def Lookup.Evicts (l : Lookup) : Prop :=
  l.before.plain.Evicts l.source

namespace SharingCache

/-- The lookups of these texts, one after the other. -/
def lookupsOf (c : SharingCache) : List String → List Lookup
  | [] => []
  | source :: sources => ⟨source, c, (c.get source).1⟩ :: (c.get source).2.lookupsOf sources

section
variable {c : SharingCache} {source : String}

theorem find?_plain (c : SharingCache) (source : String) :
    c.plain.find? source = (c.entries.lookup source).map (·.template) := by
  simp only [plain, TemplateCache.find?]
  induction c.entries with
  | nil => rfl
  | cons entry entries ih =>
    obtain ⟨key, object⟩ := entry
    rw [List.map_cons, List.lookup_cons, List.lookup_cons, ih]
    cases source == key <;> rfl

theorem size_plain (c : SharingCache) : c.plain.size = c.entries.length :=
  List.length_map _

/-- Telling the templates apart changes nothing else. -/
theorem get_plain (c : SharingCache) (source : String) :
    c.plain.get source = ((c.get source).1.template, (c.get source).2.plain) := by
  unfold TemplateCache.get get
  rw [find?_plain, size_plain]
  cases c.entries.lookup source with
  | some object => rfl
  | none => by_cases hfull : c.limit ≤ c.entries.length <;> simp [plain, hfull]

theorem run_plain (c : SharingCache) (past : List String) : (c.run past).plain = c.plain.run past := by
  induction past generalizing c with
  | nil => rfl
  | cons source past ih => rw [run, ih, TemplateCache.run, get_plain]

theorem get_of_some {object : SharedTemplate} (h : c.entries.lookup source = some object) :
    c.get source = (object, { c with lookups := c.lookups + 1 }) := by
  simp [get, h]

theorem get_of_none (h : c.entries.lookup source = none) :
    (c.get source).1 = ⟨c.lookups, .compile source⟩ := by
  simp [get, h]

theorem get_lookups (c : SharingCache) (source : String) : (c.get source).2.lookups = c.lookups + 1 := by
  unfold get
  split <;> rfl

/-- What is kept after a lookup: what was handed out, and without an eviction what was kept before. -/
theorem lookup_get (h : c.plain.Tidy) {text : String} {object : SharedTemplate} :
    (c.get source).2.entries.lookup text = some object ↔
      (source = text ∧ (c.get source).1 = object) ∨
        ¬c.plain.Evicts source ∧ c.entries.lookup text = some object := by
  rw [h.evicts_iff, find?_plain, Option.map_eq_none_iff]
  cases hfind : c.entries.lookup source with
  | some kept =>
    rw [get_of_some hfind]
    simp only [reduceCtorEq, false_and, not_false_eq_true, true_and]
    refine ⟨Or.inr, ?_⟩
    rintro (⟨rfl, rfl⟩ | hkept)
    · exact hfind
    · exact hkept
  | none =>
    have hfull : c.plain.size = c.plain.limit ↔ c.limit ≤ c.entries.length := by
      have hfits : c.entries.length ≤ c.limit := c.size_plain ▸ h.fits
      rw [size_plain]
      exact ⟨fun hsize => Nat.le_of_eq hsize.symm, Nat.le_antisymm hfits⟩
    have hentries : (c.get source).2.entries =
        (source, (c.get source).1) :: if c.limit ≤ c.entries.length then [] else c.entries := by simp [get, hfind]
    rw [hentries, List.lookup_cons, hfull]
    by_cases htext : text = source
    · subst htext
      simp [hfind]
    · rw [beq_eq_false_iff_ne.mpr htext]
      by_cases hroom : c.limit ≤ c.entries.length <;> simp [hroom, Ne.symm htext]

theorem lookupsOf_append (c : SharingCache) (past later : List String) :
    c.lookupsOf (past ++ later) = c.lookupsOf past ++ (c.run past).lookupsOf later := by
  induction past generalizing c with
  | nil => rfl
  | cons source past ih => rw [List.cons_append, lookupsOf, lookupsOf, ih, List.cons_append, run]

theorem run_append (c : SharingCache) (past later : List String) : c.run (past ++ later) = (c.run past).run later := by
  induction past generalizing c with
  | nil => rfl
  | cons source past ih => exact ih _

end

section
variable (capacity : Nat) (past : List String)

theorem plain_run : ((empty capacity).run past).plain = (TemplateCache.empty capacity).run past :=
  run_plain _ past

theorem tidy_run : ((empty capacity).run past).plain.Tidy := by
  rw [plain_run]
  exact (TemplateCache.tidy_empty capacity).run past

/-- What is kept for a text is what it was last handed out with, unless there was an eviction after that. -/
theorem lookup_run {source : String} {object : SharedTemplate} :
    ((empty capacity).run past).entries.lookup source = some object ↔
      Since (fun l => l.source = source ∧ l.object = object) Lookup.Evicts ((empty capacity).lookupsOf past) := by
  -- The induction is on the last lookup, because an eviction is looked for from the end.
  induction past using List.reverseRecOn with
  | nil => exact iff_of_false (by simp [run, empty]) not_since_nil
  | append_singleton past text ih =>
    rw [run_append, lookupsOf_append]
    simp only [run, lookupsOf]
    rw [since_concat, lookup_get (tidy_run capacity past), ih]
    rfl

/-- Every object that was handed out was made in one of the lookups so far. -/
theorem number_lt : ∀ l ∈ (empty capacity).lookupsOf past, l.object.number < ((empty capacity).run past).lookups := by
  induction past using List.reverseRecOn with
  | nil => simp [lookupsOf]
  | append_singleton past text ih =>
    rw [run_append, lookupsOf_append]
    simp only [run, get_lookups]
    intro l h
    rcases List.mem_append.mp h with h | h
    · exact Nat.lt_succ_of_lt (ih l h)
    · obtain rfl := List.mem_singleton.mp h
      cases hfind : ((empty capacity).run past).entries.lookup text with
      | none => simp [get_of_none hfind]
      | some object =>
        obtain ⟨earlier, l, later, hl, ⟨-, rfl⟩, -⟩ := (lookup_run capacity past).mp hfind
        rw [get_of_some hfind]
        exact Nat.lt_succ_of_lt (ih l (by simp [hl]))

/-- An object is handed out again exactly if its text was looked up since the last eviction, and then it is the one
    that was handed out there. -/
theorem get_run (source : String) :
    let object := (((empty capacity).run past).get source).1
    let lookups := (empty capacity).lookupsOf past
    ((∃ l ∈ lookups, l.object.number = object.number) ↔ Since (·.source = source) Lookup.Evicts lookups) ∧
    ∀ kept, Since (fun l => l.source = source ∧ l.object = kept) Lookup.Evicts lookups → object = kept := by
  intro object lookups
  have hkept : ∀ kept, Since (fun l => l.source = source ∧ l.object = kept) Lookup.Evicts lookups → object = kept :=
    fun kept h => congrArg Prod.fst (get_of_some ((lookup_run capacity past).mpr h))
  refine ⟨⟨?_, ?_⟩, hkept⟩
  · rintro ⟨l, hl, hnumber⟩
    cases hfind : ((empty capacity).run past).entries.lookup source with
    | none =>
      -- The object is made only now, and its number is that of no lookup so far.
      have hlt := number_lt capacity past l hl
      rw [hnumber, show object = _ from get_of_none hfind] at hlt
      exact absurd hlt (Nat.lt_irrefl _)
    | some kept =>
      obtain ⟨earlier, l, later, hlookups, ⟨hsource, -⟩, hlater⟩ := (lookup_run capacity past).mp hfind
      exact ⟨earlier, l, later, hlookups, hsource, hlater⟩
  · rintro ⟨earlier, l, later, hlookups, hsource, hlater⟩
    have hobject := hkept l.object ⟨earlier, l, later, hlookups, ⟨hsource, rfl⟩, hlater⟩
    exact ⟨l, by simp [hlookups], by rw [hobject]⟩

end
end SharingCache
end Logbook
