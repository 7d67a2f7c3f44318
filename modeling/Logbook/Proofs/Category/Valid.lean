import Mathlib.Data.List.Pairwise
import Logbook.Category
import Logbook.Proofs.Text.Blank

/-! Valid tables of categories. A table is valid if its names are not blank and it has at most one default; what is
    checked entry by entry comes to just that. Main statements: setting and removing keep a table valid, setting fails
    for a blank name alone, and the default of a valid table is the one entry that says so. -/

namespace Logbook
namespace CategoryTable

/-- The names stand for the same category: they agree up to blanks around them and the case of ASCII letters. -/
def SameName (name other : String) : Prop :=
  Text.sameLetters (Text.trimmed name) (Text.trimmed other) = true

instance (name other : String) : Decidable (SameName name other) :=
  inferInstanceAs (Decidable (_ = true))

/-- No name is blank, and no two entries are the default. -/
structure Valid (t : CategoryTable) : Prop where
  named : ∀ entry ∈ t.entries, Text.isBlankText entry.1 = false
  single : ∀ entry ∈ t.entries, ∀ other ∈ t.entries,
    entry.2.isDefault = true → other.2.isDefault = true → entry = other

/-! ### Entries -/

section
variable {t : CategoryTable} {name : String} {category : Category} {entry : String × Category}

theorem mem_insertEntry_iff {entries : List (String × Category)} (h : entries.Pairwise fun a b => a.1 < b.1) :
    entry ∈ insertEntry name category entries ↔ entry = (name, category) ∨ entry ∈ entries ∧ entry.1 ≠ name := by
  induction entries with
  | nil => simp [insertEntry]
  | cons first rest ih =>
    obtain ⟨hfirst, hrest⟩ := List.pairwise_cons.mp h
    unfold insertEntry
    split
    · next hlt =>
      have hne : ∀ other ∈ first :: rest, other.1 ≠ name := by
        rintro other hother rfl
        rcases List.mem_cons.mp hother with rfl | hother
        · exact String.lt_irrefl _ hlt
        · exact String.lt_irrefl _ (String.lt_trans hlt (hfirst other hother))
      rw [List.mem_cons, and_iff_left_of_imp (hne entry)]
    · split
      · next heq =>
        subst heq
        have hne : ∀ other ∈ rest, other.1 ≠ first.1 := fun other hother he =>
          String.lt_irrefl _ (he ▸ hfirst other hother)
        simp only [List.mem_cons]
        constructor
        · rintro (h | h)
          · exact Or.inl h
          · exact Or.inr ⟨Or.inr h, hne entry h⟩
        · rintro (h | ⟨rfl | h, hname⟩)
          · exact Or.inl h
          · exact absurd rfl hname
          · exact Or.inr h
      · next hne =>
        rw [List.mem_cons, ih hrest, List.mem_cons]
        constructor
        · rintro (rfl | h | ⟨h, hname⟩)
          · exact Or.inr ⟨Or.inl rfl, fun he => hne he.symm⟩
          · exact Or.inl h
          · exact Or.inr ⟨Or.inr h, hname⟩
        · rintro (h | ⟨h | h, hname⟩)
          · exact Or.inr (Or.inl h)
          · exact Or.inl h
          · exact Or.inr (Or.inr ⟨h, hname⟩)

theorem mem_insert :
    entry ∈ (t.insert name category).entries ↔ entry = (name, category) ∨ entry ∈ t.entries ∧ entry.1 ≠ name :=
  mem_insertEntry_iff t.sorted

theorem mem_erase : entry ∈ (t.erase name).entries ↔ entry ∈ t.entries ∧ entry.1 ≠ name := by
  simp [erase]

theorem mem_withoutDefault :
    entry ∈ t.withoutDefault.entries ↔ ∃ old ∈ t.entries, entry = (old.1, { old.2 with isDefault := false }) := by
  simp [withoutDefault, eq_comm]

@[simp] theorem key?_withoutDefault : t.withoutDefault.key? name = t.key? name := by
  simp [key?, withoutDefault, Function.comp_def]

/-- A name stands only for names that agree with it. -/
theorem sameLetters_of_key? {key : String} (h : t.key? name = some key) :
    Text.sameLetters key (Text.trimmed name) = true := by
  rcases Option.or_eq_some_iff.mp h with hexact | ⟨-, hcase⟩
  · have hkey := List.find?_some hexact
    rw [eq_of_beq hkey]
    exact Text.sameLetters_self _
  · have hkey := List.find?_some hcase
    exact hkey

/-! ### Setting and removing -/

theorem set_eq_error_iff {e : Error} :
    t.set name category = .error e ↔ Text.isBlankText name = true ∧ e = blankName name := by
  unfold set
  split
  · next h => simp [h, eq_comm]
  · next h => simp [h]

theorem set_eq_ok {u : CategoryTable} (h : t.set name category = .ok u) :
    Text.isBlankText name = false ∧
      u = ((if category.isDefault then t.withoutDefault else t).remove name).insert (Text.trimmed name) category := by
  unfold set at h
  split at h
  · cases h
  · next hname => exact ⟨by simpa using hname, (Except.ok.inj h).symm⟩

theorem mem_remove : entry ∈ (t.remove name).entries ↔ entry ∈ t.entries ∧ t.key? name ≠ some entry.1 := by
  unfold remove
  split
  · next key hkey => simp [mem_erase, hkey, eq_comm]
  · next hkey => simp [hkey]

/-- The table after a category was set: it has the new entry, and besides it those entries whose names the new name
    does not stand for. -/
theorem mem_set {u : CategoryTable} (h : t.set name category = .ok u) :
    entry ∈ u.entries ↔ entry = (Text.trimmed name, category) ∨
      (entry ∈ (if category.isDefault then t.withoutDefault else t).entries ∧ t.key? name ≠ some entry.1) ∧
        entry.1 ≠ Text.trimmed name := by
  rw [(set_eq_ok h).2, mem_insert, mem_remove]
  split
  · rw [key?_withoutDefault]
  · rfl

theorem eq_or_mem_of_mem_set {u : CategoryTable} (h : t.set name category = .ok u) (hentry : entry ∈ u.entries) :
    entry = (Text.trimmed name, category) ∨
      ∃ old ∈ t.entries, entry.1 = old.1 ∧
        (entry.2.isDefault = true → category.isDefault = false ∧ entry = old) := by
  rcases (mem_set h).mp hentry with hnew | ⟨⟨hold, -⟩, -⟩
  · exact Or.inl hnew
  · cases hdefault : category.isDefault
    · rw [hdefault, if_neg Bool.false_ne_true] at hold
      exact Or.inr ⟨entry, hold, rfl, fun _ => ⟨rfl, rfl⟩⟩
    · rw [hdefault, if_pos rfl] at hold
      obtain ⟨old, hmem, rfl⟩ := mem_withoutDefault.mp hold
      exact Or.inr ⟨old, hmem, rfl, fun h => by cases h⟩

/-- An entry stays when a category is set that is not a default and has another name. -/
theorem mem_set_of_mem {u : CategoryTable} (hentry : entry ∈ t.entries) (h : t.set name category = .ok u)
    (hdefault : category.isDefault = false) (hne : Text.sameLetters entry.1 (Text.trimmed name) ≠ true) :
    entry ∈ u.entries := by
  rw [mem_set h, hdefault, if_neg Bool.false_ne_true]
  exact Or.inr ⟨⟨hentry, fun hkey => hne (sameLetters_of_key? hkey)⟩,
    fun hname => hne (by rw [hname]; exact Text.sameLetters_self _)⟩

theorem mem_remove_of_mem (hentry : entry ∈ t.entries) (hne : Text.sameLetters entry.1 (Text.trimmed name) ≠ true) :
    entry ∈ (t.remove name).entries :=
  mem_remove.mpr ⟨hentry, fun hkey => hne (sameLetters_of_key? hkey)⟩

end

/-! ### Valid tables -/

theorem firstError?_eq_none_iff {previous : Option String} {entries : List (String × Category)} :
    firstError? previous entries = none ↔
      (∀ entry ∈ entries, Text.isBlankText entry.1 = false) ∧
      (previous.isSome = true → ∀ entry ∈ entries, entry.2.isDefault = false) ∧
      entries.Pairwise fun a b => a.2.isDefault = true → b.2.isDefault = false := by
  -- The induction is on the entries; a default that was met is remembered as `previous` from there on.
  induction entries generalizing previous with
  | nil => simp [firstError?]
  | cons first rest ih =>
    obtain ⟨name, category⟩ := first
    unfold firstError?
    rw [List.pairwise_cons]
    cases hname : Text.isBlankText name
    · cases hdefault : category.isDefault
      · simp [ih, hname, hdefault]
      · cases previous with
        | none => simp [ih, hname, hdefault]
        | some previous => simp [hname, hdefault]
    · simp [hname]

theorem validate_eq_ok_iff {t : CategoryTable} : t.validate = .ok () ↔ t.Valid := by
  have hvalidate : t.validate = .ok () ↔ firstError? none t.entries = none := by
    unfold validate
    cases firstError? none t.entries <;> simp
  rw [hvalidate, firstError?_eq_none_iff]
  have hsingle : (t.entries.Pairwise fun a b => a.2.isDefault = true → b.2.isDefault = false) ↔
      ∀ entry ∈ t.entries, ∀ other ∈ t.entries,
        entry.2.isDefault = true → other.2.isDefault = true → entry = other := by
    constructor
    · intro h entry hentry other hother he ho
      have : Std.Symm fun a b : String × Category => a.2.isDefault = true → b.2.isDefault = false :=
        ⟨fun a b hab => by cases ha : a.2.isDefault <;> simp_all⟩
      by_contra hne
      rw [h.forall hentry hother hne he] at ho
      cases ho
    · intro h
      refine t.sorted.imp_of_mem fun {a b} ha hb hlt hdefault => ?_
      cases hother : b.2.isDefault
      · rfl
      · rw [h a ha b hb hdefault hother] at hlt
        exact absurd hlt (String.lt_irrefl _)
  rw [hsingle]
  exact ⟨fun ⟨hnamed, _, hsingle⟩ => ⟨hnamed, hsingle⟩,
    fun ⟨hnamed, hsingle⟩ => ⟨hnamed, fun h => (by cases h), hsingle⟩⟩

namespace Valid
variable {t u : CategoryTable} {name : String} {category : Category}

theorem set (ht : t.Valid) (h : t.set name category = .ok u) : u.Valid where
  named entry hentry := by
    rcases eq_or_mem_of_mem_set h hentry with rfl | ⟨old, hold, hname, -⟩
    · rw [Text.isBlankText_trimmed]
      exact (set_eq_ok h).1
    · rw [hname]
      exact ht.named old hold
  single entry hentry other hother he ho := by
    rcases eq_or_mem_of_mem_set h hentry with rfl | ⟨old, hold, -, hkept⟩
    · rcases eq_or_mem_of_mem_set h hother with rfl | ⟨old', -, -, hkept'⟩
      · rfl
      · -- A new default takes over from the others.
        rw [(hkept' ho).1] at he
        cases he
    · obtain ⟨hdefault, rfl⟩ := hkept he
      rcases eq_or_mem_of_mem_set h hother with rfl | ⟨old', hold', -, hkept'⟩
      · rw [hdefault] at ho
        cases ho
      · obtain ⟨-, rfl⟩ := hkept' ho
        exact ht.single _ hold _ hold' he ho

theorem remove (ht : t.Valid) (name : String) : (t.remove name).Valid where
  named entry hentry := ht.named entry (mem_remove.mp hentry).1
  single entry hentry other hother := ht.single entry (mem_remove.mp hentry).1 other (mem_remove.mp hother).1

/-- The default of a valid table is the name of the one entry that is a default. -/
theorem default?_eq_some (ht : t.Valid) (h : (name, category) ∈ t.entries) (hdefault : category.isDefault = true) :
    t.default? = some name := by
  unfold default?
  cases hfind : t.entries.find? fun entry => entry.2.isDefault with
  | none => exact absurd hdefault (List.find?_eq_none.mp hfind _ h)
  | some entry =>
    have hfirst := List.find?_some hfind
    rw [ht.single entry (List.mem_of_find?_eq_some hfind) _ h hfirst hdefault]
    rfl

end Valid

end CategoryTable
end Logbook
