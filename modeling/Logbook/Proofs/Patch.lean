import Logbook.Patch
import Logbook.Proofs.Category.Valid

/-! Patches are applied as a whole or not at all. All that can be wrong with a patch is found when it is checked:
    every name that it sets is looked at there, so the categories can be changed one after the other without fail.
    Main statements: a patch can be applied exactly if it is valid, and it keeps a configuration valid. -/

namespace Logbook

namespace CategoryTable

/-! ### Categories set one after the other -/

/-- The table after categories were set one after the other. -/
def setAll (t : CategoryTable) (items : List (String × Category)) : Except Error CategoryTable :=
  items.foldlM (fun t c => t.set c.1 c.2) t

theorem setAll_cons_eq_ok {t u : CategoryTable} {item : String × Category} {items : List (String × Category)} :
    t.setAll (item :: items) = .ok u ↔ ∃ v, t.set item.1 item.2 = .ok v ∧ v.setAll items = .ok u := by
  simp only [setAll, List.foldlM_cons, bind_eq_ok]

theorem setAll_append_eq_ok {t u : CategoryTable} {items later : List (String × Category)} :
    t.setAll (items ++ later) = .ok u ↔ ∃ v, t.setAll items = .ok v ∧ v.setAll later = .ok u := by
  simp only [setAll, List.foldlM_append, bind_eq_ok]

/-- Whatever the tables on the way look like, only a blank name could keep a category from being set. -/
theorem exists_setAll {items : List (String × Category)} (h : ∀ item ∈ items, Text.isBlankText item.1 = false)
    (t : CategoryTable) : ∃ u, t.setAll items = .ok u := by
  induction items generalizing t with
  | nil => exact ⟨t, rfl⟩
  | cons item items ih =>
    cases hset : t.set item.1 item.2 with
    | error e =>
      have hblank := (set_eq_error_iff.mp hset).1
      rw [h item List.mem_cons_self] at hblank
      cases hblank
    | ok v =>
      obtain ⟨u, hu⟩ := ih (fun x hx => h x (List.mem_cons_of_mem _ hx)) v
      exact ⟨u, setAll_cons_eq_ok.mpr ⟨v, hset, hu⟩⟩

theorem Valid.setAll {t u : CategoryTable} (ht : t.Valid) {items : List (String × Category)}
    (h : t.setAll items = .ok u) : u.Valid := by
  induction items generalizing t with
  | nil =>
    obtain rfl := Except.ok.inj h
    exact ht
  | cons item items ih =>
    obtain ⟨v, hv, hu⟩ := setAll_cons_eq_ok.mp h
    exact ih (ht.set hv) hu

theorem Valid.removeAll {t : CategoryTable} (ht : t.Valid) (names : List String) :
    (names.foldl CategoryTable.remove t).Valid := by
  induction names generalizing t with
  | nil => exact ht
  | cons name names ih => exact ih (ht.remove name)

theorem mem_setAll_of_mem {t u : CategoryTable} {entry : String × Category} {items : List (String × Category)}
    (hentry : entry ∈ t.entries) (h : t.setAll items = .ok u) (hdefault : ∀ item ∈ items, item.2.isDefault = false)
    (hne : ∀ item ∈ items, Text.sameLetters entry.1 (Text.trimmed item.1) ≠ true) : entry ∈ u.entries := by
  induction items generalizing t with
  | nil =>
    obtain rfl := Except.ok.inj h
    exact hentry
  | cons item items ih =>
    obtain ⟨v, hv, hu⟩ := setAll_cons_eq_ok.mp h
    have hkept := mem_set_of_mem hentry hv (hdefault item List.mem_cons_self) (hne item List.mem_cons_self)
    exact ih hkept hu (fun x hx => hdefault x (List.mem_cons_of_mem _ hx))
      (fun x hx => hne x (List.mem_cons_of_mem _ hx))

theorem mem_removeAll_of_mem {t : CategoryTable} {entry : String × Category} {names : List String}
    (hentry : entry ∈ t.entries) (hne : ∀ name ∈ names, Text.sameLetters entry.1 (Text.trimmed name) ≠ true) :
    entry ∈ (names.foldl remove t).entries := by
  induction names generalizing t with
  | nil => exact hentry
  | cons name names ih =>
    exact ih (mem_remove_of_mem hentry (hne name List.mem_cons_self))
      (fun x hx => hne x (List.mem_cons_of_mem _ hx))

end CategoryTable

/-! ### Valid configurations -/

theorem HostColors.validate_eq_ok_iff {t : HostColors} : t.validate = .ok () ↔ t.get? .off = none := by
  unfold validate
  cases h : t.off <;> simp [get?, h]

theorem Configuration.validate_eq_ok_iff {c : Configuration} :
    c.validate = .ok () ↔ c.hostColors.get? .off = none ∧ c.categories.Valid := by
  rw [← HostColors.validate_eq_ok_iff, ← CategoryTable.validate_eq_ok_iff, Configuration.validate]
  cases c.hostColors.validate <;> simp [Except.bind]

namespace Patch
variable {p : Patch} {c d : Configuration}

/-! ### Valid patches -/

theorem validateSwitches_eq_ok_iff : p.validateSwitches = .ok () ↔ p.includeDate.isConflict = false ∧
    p.overwrite.isConflict = false ∧ p.writeToHost.isConflict = false ∧ p.fromScript.isConflict = false ∧
    p.fromHost.isConflict = false := by
  have hnone : p.validateSwitches = .ok () ↔ p.switches.find? (fun s => s.1.isConflict) = none := by
    unfold validateSwitches
    cases p.switches.find? (fun s => s.1.isConflict) with
    | none => exact ⟨fun _ => rfl, fun _ => rfl⟩
    | some s => exact ⟨nofun, nofun⟩
  rw [hnone, List.find?_eq_none]
  simp only [switches, List.mem_cons, List.not_mem_nil, or_false, forall_eq_or_imp, forall_eq, Bool.not_eq_true]

theorem validateColors_eq_ok_iff : p.validateColors = .ok () ↔
    ((p.hostColors.map fun t => t.off.isSome).getD false || p.textColors.any fun c => c.1 == .off) = false := by
  unfold validateColors
  split
  · next hoff =>
    rw [hoff]
    exact ⟨nofun, nofun⟩
  · next hoff => exact ⟨fun _ => Bool.not_eq_true _ ▸ hoff, fun _ => rfl⟩

theorem validateNames_eq_ok_iff : p.validateNames = .ok () ↔ ∀ c ∈ p.setCategories, Text.isBlankText c.1 = false := by
  have hnone : p.validateNames = .ok () ↔ p.setCategories.find? (fun c => Text.isBlankText c.1) = none := by
    unfold validateNames
    cases p.setCategories.find? (fun c => Text.isBlankText c.1) with
    | none => exact ⟨fun _ => rfl, fun _ => rfl⟩
    | some c => exact ⟨nofun, nofun⟩
  rw [hnone, List.find?_eq_none]
  simp only [Bool.not_eq_true]

/-- What a valid patch has passed. -/
structure Checked (p : Patch) : Prop where
  switches : p.validateSwitches = .ok ()
  colors : p.validateColors = .ok ()
  table : p.validateTable = .ok ()
  names : p.validateNames = .ok ()

theorem validate_eq_ok_iff : p.validate = .ok () ↔ p.Checked := by
  unfold validate
  simp only [bind_eq_ok]
  exact ⟨fun ⟨_, hswitches, _, hcolors, _, htable, hnames⟩ => ⟨hswitches, hcolors, htable, hnames⟩,
    fun ⟨hswitches, hcolors, htable, hnames⟩ => ⟨_, hswitches, _, hcolors, _, htable, hnames⟩⟩

namespace Checked

theorem isBlankText_eq_false (h : p.Checked) : ∀ item ∈ p.setCategories, Text.isBlankText item.1 = false :=
  validateNames_eq_ok_iff.mp h.names

theorem valid_getD (h : p.Checked) {before : CategoryTable} (hbefore : before.Valid) :
    (p.categories.getD before).Valid := by
  have htable := h.table
  unfold validateTable at htable
  cases hcategories : p.categories with
  | none => exact hbefore
  | some t =>
    rw [hcategories] at htable
    exact CategoryTable.validate_eq_ok_iff.mp htable

/-- Neither the table of colors nor a single color is about `off`. -/
theorem off_eq_none (h : p.Checked) :
    (∀ t, p.hostColors = some t → t.get? .off = none) ∧ ∀ item ∈ p.textColors, item.1 ≠ .off := by
  have hnone := validateColors_eq_ok_iff.mp h.colors
  simp only [Bool.or_eq_false_iff, List.any_eq_false, beq_iff_eq] at hnone
  refine ⟨fun t ht => ?_, hnone.2⟩
  simpa [ht, HostColors.get?] using hnone.1

end Checked

/-! ### Applying a patch -/

theorem applyCategories_eq_ok {before t : CategoryTable} :
    p.applyCategories before = .ok t ↔ ∃ u, (p.categories.getD before).setAll p.setCategories = .ok u ∧
      p.removeCategories.foldl CategoryTable.remove u = t := by
  simp only [applyCategories, bind_eq_ok, pure, Except.pure, Except.ok.injEq, CategoryTable.setAll]

theorem apply_eq_ok : p.apply c = .ok d ↔ p.validate = .ok () ∧
    ∃ t, p.applyCategories c.categories = .ok t ∧ ⟨p.threshold.getD c.threshold, p.template.getD c.template,
      p.writeToHost.apply c.writeToHost, p.applyColors c.hostColors, t, p.applyFile c.file⟩ = d := by
  simp only [apply, bind_eq_ok, pure, Except.pure, Except.ok.injEq]
  exact ⟨fun ⟨_, hvalid, happly⟩ => ⟨hvalid, happly⟩, fun ⟨hvalid, happly⟩ => ⟨_, hvalid, happly⟩⟩

/-- A valid patch can be applied to every configuration. -/
theorem exists_apply (h : p.validate = .ok ()) (c : Configuration) : ∃ d, p.apply c = .ok d := by
  obtain ⟨u, hu⟩ := CategoryTable.exists_setAll (validate_eq_ok_iff.mp h).isBlankText_eq_false
    (p.categories.getD c.categories)
  exact ⟨_, apply_eq_ok.mpr ⟨h, _, applyCategories_eq_ok.mpr ⟨u, hu, rfl⟩, rfl⟩⟩

/-- A patch that is not valid fails with the error that the check found. -/
theorem apply_of_error {e : Error} (h : p.validate = .error e) (c : Configuration) : p.apply c = .error e := by
  simp [apply, h, bind, Except.bind]

/-! ### What a patch keeps -/

theorem get?_off_applyColors (h : p.Checked) {before : HostColors} (hbefore : before.get? .off = none) :
    (p.applyColors before).get? .off = none := by
  obtain ⟨htable, hsingle⟩ := h.off_eq_none
  have hstart : (p.hostColors.getD before).get? .off = none := by
    cases hcolors : p.hostColors with
    | none => exact hbefore
    | some t => exact htable t hcolors
  unfold applyColors
  generalize p.textColors = items at hsingle
  generalize p.hostColors.getD before = t at hstart
  induction items generalizing t with
  | nil => exact hstart
  | cons item items ih =>
    refine ih (fun x hx => hsingle x (List.mem_cons_of_mem _ hx)) _ ?_
    rw [HostColors.get?_insert, if_neg (hsingle item List.mem_cons_self).symm]
    exact hstart

theorem valid_applyCategories (h : p.Checked) {before t : CategoryTable} (hbefore : before.Valid)
    (ht : p.applyCategories before = .ok t) : t.Valid := by
  obtain ⟨u, hu, rfl⟩ := applyCategories_eq_ok.mp ht
  exact ((h.valid_getD hbefore).setAll hu).removeAll _

theorem validate_apply (hc : c.validate = .ok ()) (h : p.apply c = .ok d) : d.validate = .ok () := by
  obtain ⟨hvalid, t, ht, rfl⟩ := apply_eq_ok.mp h
  obtain ⟨hcolors, hcategories⟩ := Configuration.validate_eq_ok_iff.mp hc
  have hp := validate_eq_ok_iff.mp hvalid
  exact Configuration.validate_eq_ok_iff.mpr ⟨get?_off_applyColors hp hcolors, valid_applyCategories hp hcategories ht⟩

/-- The last category that a patch sets as the default is the default afterwards, under its trimmed name, unless a
    category of the same name is set later or removed. -/
theorem default?_apply (hc : c.validate = .ok ()) (h : p.apply c = .ok d) {name : String} {category : Category}
    {earlier later : List (String × Category)} (hset : p.setCategories = earlier ++ (name, category) :: later)
    (hdefault : category.isDefault = true)
    (hlater : ∀ item ∈ later, item.2.isDefault = false ∧ ¬CategoryTable.SameName name item.1)
    (hremoved : ∀ other ∈ p.removeCategories, ¬CategoryTable.SameName name other) :
    d.categories.default? = some (Text.trimmed name) := by
  obtain ⟨hvalid, t, ht, rfl⟩ := apply_eq_ok.mp h
  have htable : t.Valid :=
    valid_applyCategories (validate_eq_ok_iff.mp hvalid) (Configuration.validate_eq_ok_iff.mp hc).2 ht
  obtain ⟨u, hu, rfl⟩ := applyCategories_eq_ok.mp ht
  rw [hset] at hu
  obtain ⟨v, -, hv⟩ := CategoryTable.setAll_append_eq_ok.mp hu
  obtain ⟨w, hw, hlast⟩ := CategoryTable.setAll_cons_eq_ok.mp hv
  have hnew : (Text.trimmed name, category) ∈ w.entries := (CategoryTable.mem_set hw).mpr (Or.inl rfl)
  have hkept := CategoryTable.mem_setAll_of_mem hnew hlast (fun item hitem => (hlater item hitem).1)
    (fun item hitem => (hlater item hitem).2)
  exact htable.default?_eq_some (CategoryTable.mem_removeAll_of_mem hkept hremoved) hdefault

/-! ### The patch of every setting -/

/-- The patch that names every setting, each with its value in a configuration. -/
def whole (c : Configuration) : Patch :=
  ofList [.threshold c.threshold, .template c.template, .fileName c.file.name, .includeDate c.file.includeDate,
    .overwrite c.file.overwrite, .writeToHost c.writeToHost, .fromScript c.file.fromScript, .fromHost c.file.fromHost,
    .hostColors c.hostColors, .categories c.categories]

theorem isConflict_press (side : Bool) : ((default : Switch).press side).isConflict = false := by
  cases side <;> rfl

theorem apply_press (side before : Bool) : ((default : Switch).press side).apply before = side := by
  cases side <;> rfl

/-- One side of each switch is asked for, so all that can be wrong with the patch is wrong with the configuration. -/
theorem validate_whole (c : Configuration) : (whole c).validate = c.validate := by
  have hswitches : (whole c).validateSwitches = .ok () := by
    simp [validateSwitches, switches, whole, ofList, add, empty, isConflict_press]
  have hcolors : (whole c).validateColors = c.hostColors.validate := by
    simp [validateColors, whole, ofList, add, empty, HostColors.validate]
  have hnames : (whole c).validateNames = .ok () := rfl
  rw [validate, hswitches, hcolors, hnames, Configuration.validate]
  cases c.hostColors.validate with
  | error e => rfl
  | ok _ => cases hcategories : c.categories.validate <;> simp [validateTable, whole, ofList, add, hcategories] <;> rfl

/-- The patch of every setting leaves nothing of the configuration before it. -/
theorem apply_whole (c before : Configuration) : (whole c).apply before = c.validate.map fun _ => c := by
  rw [apply, validate_whole]
  cases c.validate with
  | error e => rfl
  | ok _ =>
    obtain ⟨threshold, template, writeToHost, hostColors, categories, name, includeDate, overwrite, fromScript,
      fromHost⟩ := c
    simp [whole, ofList, add, empty, applyFile, applyColors, applyCategories, apply_press, bind, Except.bind, pure,
      Except.pure, Except.map]

end Patch
end Logbook
