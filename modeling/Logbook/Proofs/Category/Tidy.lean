import Mathlib.Data.List.Nodup
import Logbook.Proofs.Category.Valid

/-! Tidy tables of categories, where a name stands for one entry at most. Main statement: setting and removing keep a
    table tidy, and what they change is what is found under the one name. -/

namespace Logbook

/-- A category next to one that is set, which takes over as the default if it is one. -/
def Category.beside (c new : Category) : Category :=
  ⟨c.color, c.isDefault && !new.isDefault⟩

namespace CategoryTable

/-- The letters that a name counts for. -/
def lettersOf (name : String) : List Char :=
  (Text.trimmed name).toList.map Char.toLower

theorem sameName_iff {name other : String} : SameName name other ↔ lettersOf name = lettersOf other :=
  Text.sameLetters_iff

/-- No name has blanks around it, and no two names agree up to letter case. -/
structure Tidy (t : CategoryTable) : Prop where
  trimmed : ∀ entry ∈ t.entries, Text.trimmed entry.1 = entry.1
  apart : ∀ entry ∈ t.entries, ∀ other ∈ t.entries, Text.sameLetters entry.1 other.1 = true → entry = other

section
variable {t u : CategoryTable} {name q : String} {category found : Category} {entry : String × Category}

theorem find?_eq_some_iff : t.find? name = some category ↔ (name, category) ∈ t.entries := by
  rw [find?, List.lookup_eq_some_iff]
  constructor
  · rintro ⟨front, back, hentries, -⟩
    rw [hentries]
    exact List.mem_append_right _ List.mem_cons_self
  · intro h
    obtain ⟨front, back, hentries⟩ := List.append_of_mem h
    refine ⟨front, back, hentries, fun other hother => ?_⟩
    have hlt := (List.pairwise_append.mp (hentries ▸ t.sorted)).2.2 other hother _ List.mem_cons_self
    have hne : name ≠ other.1 := fun heq => String.lt_irrefl _ (heq ▸ hlt)
    simpa using hne

theorem mem_of_key? {key : String} (h : t.key? name = some key) : ∃ entry ∈ t.entries, entry.1 = key := by
  rcases Option.or_eq_some_iff.mp h with hexact | ⟨-, hcase⟩
  · exact List.mem_map.mp (List.mem_of_find?_eq_some hexact)
  · exact List.mem_map.mp (List.mem_of_find?_eq_some hcase)

namespace Tidy

/-- In a tidy table a name stands for the one entry that agrees with it. -/
theorem key?_eq_some_iff (ht : t.Tidy) (hentry : entry ∈ t.entries) :
    t.key? name = some entry.1 ↔ Text.sameLetters entry.1 (Text.trimmed name) = true := by
  refine ⟨sameLetters_of_key?, fun hsame => ?_⟩
  cases hkey : t.key? name with
  | none =>
    have hnone := List.find?_eq_none.mp (Option.or_eq_none_iff.mp hkey).2
    exact absurd hsame (hnone _ (List.mem_map_of_mem hentry))
  | some key =>
    obtain ⟨other, hother, rfl⟩ := mem_of_key? hkey
    have hboth := Text.sameLetters_trans (sameLetters_of_key? hkey) (Text.sameLetters_comm hsame)
    rw [ht.apart other hother entry hentry hboth]

theorem get?_eq_some_iff (ht : t.Tidy) :
    t.get? q = some found ↔ ∃ key, (key, found) ∈ t.entries ∧ Text.sameLetters key (Text.trimmed q) = true := by
  rw [get?, Option.bind_eq_some_iff]
  constructor
  · rintro ⟨key, hkey, hfound⟩
    exact ⟨key, find?_eq_some_iff.mp hfound, sameLetters_of_key? hkey⟩
  · rintro ⟨key, hentry, hsame⟩
    exact ⟨key, (ht.key?_eq_some_iff hentry).mpr hsame, find?_eq_some_iff.mpr hentry⟩

end Tidy

/-! ### Setting and removing -/

theorem mem_beside :
    entry ∈ (if category.isDefault then t.withoutDefault else t).entries ↔
      ∃ old ∈ t.entries, entry = (old.1, old.2.beside category) := by
  cases hdefault : category.isDefault
  · simp [Category.beside, hdefault]
  · rw [if_pos rfl, mem_withoutDefault]
    simp [Category.beside, hdefault]

namespace Tidy

theorem mem_remove_iff (ht : t.Tidy) : entry ∈ (t.remove name).entries ↔
    entry ∈ t.entries ∧ Text.sameLetters entry.1 (Text.trimmed name) ≠ true := by
  rw [mem_remove]
  exact and_congr_right fun hentry => not_congr (ht.key?_eq_some_iff hentry)

theorem mem_set_iff (ht : t.Tidy) (h : t.set name category = .ok u) : entry ∈ u.entries ↔
    entry = (Text.trimmed name, category) ∨ ∃ old ∈ t.entries,
      Text.sameLetters old.1 (Text.trimmed name) ≠ true ∧ entry = (old.1, old.2.beside category) := by
  rw [mem_set h, mem_beside]
  refine or_congr Iff.rfl ⟨?_, ?_⟩
  · rintro ⟨⟨⟨old, hold, rfl⟩, hkey⟩, -⟩
    exact ⟨old, hold, fun hsame => hkey ((ht.key?_eq_some_iff hold).mpr hsame), rfl⟩
  · rintro ⟨old, hold, hother, rfl⟩
    refine ⟨⟨⟨old, hold, rfl⟩, fun hkey => hother ((ht.key?_eq_some_iff hold).mp hkey)⟩, fun hname => hother ?_⟩
    rw [show old.1 = Text.trimmed name from hname]
    exact Text.sameLetters_self _

theorem remove (ht : t.Tidy) (name : String) : (t.remove name).Tidy where
  trimmed entry hentry := ht.trimmed entry (mem_remove.mp hentry).1
  apart entry hentry other hother := ht.apart entry (mem_remove.mp hentry).1 other (mem_remove.mp hother).1

theorem set (ht : t.Tidy) (h : t.set name category = .ok u) : u.Tidy where
  trimmed entry hentry := by
    rcases (ht.mem_set_iff h).mp hentry with rfl | ⟨old, hold, -, rfl⟩
    · exact Text.trimmed_trimmed name
    · exact ht.trimmed old hold
  apart entry hentry other hother hsame := by
    rcases (ht.mem_set_iff h).mp hentry with rfl | ⟨old, hold, hne, rfl⟩ <;>
      rcases (ht.mem_set_iff h).mp hother with rfl | ⟨old', hold', hne', rfl⟩
    · rfl
    · exact absurd (Text.sameLetters_comm hsame) hne'
    · exact absurd hsame hne
    · rw [ht.apart old hold old' hold' hsame]

/-- A category that is set is found under its name, and every other name is as before, but that a new default takes
    over. -/
theorem get?_set (ht : t.Tidy) (h : t.set name category = .ok u) (q : String) :
    u.get? q = if SameName name q then some category else (t.get? q).map (·.beside category) := by
  ext found
  rw [(ht.set h).get?_eq_some_iff]
  split
  · next hsame =>
    -- No other entry can be found under this name, because the call took the one that could.
    rw [Option.some_inj]
    constructor
    · rintro ⟨key, hentry, hkey⟩
      have hboth := Text.sameLetters_trans hkey (Text.sameLetters_comm hsame)
      rcases (ht.mem_set_iff h).mp hentry with heq | ⟨old, -, hne, heq⟩
      · exact (Prod.mk.inj heq).2.symm
      · rw [(Prod.mk.inj heq).1] at hboth
        exact absurd hboth hne
    · rintro rfl
      exact ⟨_, (ht.mem_set_iff h).mpr (Or.inl rfl), hsame⟩
  · next hother =>
    simp only [Option.map_eq_some_iff, ht.get?_eq_some_iff]
    constructor
    · rintro ⟨key, hentry, hkey⟩
      rcases (ht.mem_set_iff h).mp hentry with heq | ⟨old, hold, -, heq⟩
      · rw [(Prod.mk.inj heq).1] at hkey
        exact absurd hkey hother
      · obtain ⟨rfl, rfl⟩ := Prod.mk.inj heq
        exact ⟨old.2, ⟨old.1, hold, hkey⟩, rfl⟩
    · rintro ⟨old, ⟨key, hold, hkey⟩, rfl⟩
      have hne : Text.sameLetters key (Text.trimmed name) ≠ true := fun hsame =>
        hother (Text.sameLetters_trans (Text.sameLetters_comm hsame) hkey)
      exact ⟨key, (ht.mem_set_iff h).mpr (Or.inr ⟨_, hold, hne, rfl⟩), hkey⟩

theorem get?_remove (ht : t.Tidy) (name q : String) :
    (t.remove name).get? q = if SameName name q then none else t.get? q := by
  ext found
  rw [(ht.remove name).get?_eq_some_iff]
  simp only [ht.mem_remove_iff]
  split
  · next hsame =>
    refine ⟨?_, fun h => by cases h⟩
    rintro ⟨key, ⟨-, hne⟩, hkey⟩
    exact absurd (Text.sameLetters_trans hkey (Text.sameLetters_comm hsame)) hne
  · next hother =>
    rw [ht.get?_eq_some_iff]
    refine exists_congr fun key => and_congr_left fun hkey => and_iff_left fun hsame => hother ?_
    exact Text.sameLetters_trans (Text.sameLetters_comm hsame) hkey

end Tidy
end

/-! ### The names in a table -/

section
variable {t : CategoryTable}

namespace Tidy

theorem sameName_iff_sameLetters (ht : t.Tidy) {entry : String × Category} (hentry : entry ∈ t.entries) (q : String) :
    SameName entry.1 q ↔ Text.sameLetters entry.1 (Text.trimmed q) = true := by
  rw [SameName, ht.trimmed entry hentry]

theorem nodup_letters (ht : t.Tidy) : (t.entries.map fun entry => lettersOf entry.1).Nodup := by
  have hnodup : t.entries.Nodup := t.sorted.imp fun {a b} hlt heq => by
    rw [heq] at hlt
    exact String.lt_irrefl _ hlt
  refine hnodup.map_on fun entry hentry other hother heq => ht.apart entry hentry other hother ?_
  have hsame := sameName_iff.mpr heq
  rwa [ht.sameName_iff_sameLetters hentry, ht.trimmed other hother] at hsame

/-- The default of a table is found under its name, and under no other name is a default found. -/
theorem default?_iff (ht : t.Tidy) (hvalid : t.Valid) (q : String) :
    (∃ found, t.get? q = some found ∧ found.isDefault = true) ↔ ∃ name, t.default? = some name ∧ SameName name q := by
  simp only [ht.get?_eq_some_iff]
  constructor
  · rintro ⟨found, ⟨key, hentry, hkey⟩, hdefault⟩
    exact ⟨key, hvalid.default?_eq_some hentry hdefault, (ht.sameName_iff_sameLetters hentry q).mpr hkey⟩
  · rintro ⟨name, hname, hsame⟩
    obtain ⟨entry, hfind, rfl⟩ := Option.map_eq_some_iff.mp hname
    have hentry := List.mem_of_find?_eq_some hfind
    have hdefault := List.find?_some hfind
    exact ⟨entry.2, ⟨entry.1, hentry, (ht.sameName_iff_sameLetters hentry q).mp hsame⟩, hdefault⟩

end Tidy
end

end CategoryTable
end Logbook
