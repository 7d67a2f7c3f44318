import Logbook.Proofs.Patch

/-! Patches as the changes that they are made of. A valid patch can be read back into changes, in the order in which
    they take effect; each of them does by itself, after those before it, what it does within the patch. How changes
    of different kinds are interleaved makes no difference to the patch that is built of them. -/

namespace Logbook

/-! ### Switches -/

/-- The sides of a setting that were asked for. -/
def Switch.sides (s : Switch) : List Bool :=
  (if s.on then [true] else []) ++ (if s.off then [false] else [])

theorem Switch.isConflict_press_eq_false {s : Switch} {side : Bool} :
    (s.press side).isConflict = false ↔ s.isConflict = false ∧ (if side then s.off else s.on) = false := by
  obtain ⟨on, off⟩ := s
  cases side <;> cases on <;> cases off <;> decide

theorem Switch.apply_press {s : Switch} {side : Bool} (h : (s.press side).isConflict = false) (before : Bool) :
    (s.press side).apply before = ((default : Switch).press side).apply (s.apply before) := by
  obtain ⟨on, off⟩ := s
  revert h
  cases side <;> cases on <;> cases off <;> cases before <;> decide

theorem Switch.eq_default_or_press (s : Switch) (h : s.isConflict = false) :
    s = default ∨ ∃ side, s = (default : Switch).press side ∧ s.sides = [side] := by
  obtain ⟨on, off⟩ := s
  cases on <;> cases off
  · exact .inl rfl
  · exact .inr ⟨false, rfl, rfl⟩
  · exact .inr ⟨true, rfl, rfl⟩
  · cases h

/-! ### Kinds of changes -/

/-- What a change does, but for the value that it brings. -/
inductive Change.Kind where
  | threshold
  | template
  | fileName
  | includeDate (side : Bool)
  | overwrite (side : Bool)
  | writeToHost (side : Bool)
  | fromScript (side : Bool)
  | fromHost (side : Bool)
  | hostColors
  | textColor
  | categories
  | setCategory
  | removeCategory
deriving DecidableEq

def Change.kind : Change → Kind
  | .threshold _ => .threshold
  | .template _ => .template
  | .fileName _ => .fileName
  | .includeDate side => .includeDate side
  | .overwrite side => .overwrite side
  | .writeToHost side => .writeToHost side
  | .fromScript side => .fromScript side
  | .fromHost side => .fromHost side
  | .hostColors _ => .hostColors
  | .textColor _ _ => .textColor
  | .categories _ => .categories
  | .setCategory _ _ => .setCategory
  | .removeCategory _ => .removeCategory

namespace Patch

/-- The changes that a patch asks for, in the order in which they take effect. -/
def changes (p : Patch) : List Change :=
  p.threshold.toList.map .threshold ++ p.template.toList.map .template ++ p.fileName.toList.map .fileName ++
  p.includeDate.sides.map .includeDate ++ p.overwrite.sides.map .overwrite ++ p.writeToHost.sides.map .writeToHost ++
  p.fromScript.sides.map .fromScript ++ p.fromHost.sides.map .fromHost ++ p.hostColors.toList.map .hostColors ++
  p.textColors.map (fun c => .textColor c.1 c.2) ++ p.categories.toList.map .categories ++
  p.setCategories.map (fun c => .setCategory c.1 c.2) ++ p.removeCategories.map .removeCategory

variable {p q r : Patch} {x y : Change} {c d e : Configuration}

/-! ### Interleaving -/

section
variable {α β κ : Type} {f : β → α → β} {kind : α → κ}

theorem foldl_pass (hcomm : ∀ b x y, kind x ≠ kind y → f (f b x) y = f (f b y) x) {x : α} {front : List α}
    (hfront : ∀ y ∈ front, kind x ≠ kind y) (b : β) : front.foldl f (f b x) = f (front.foldl f b) x := by
  induction front generalizing b with
  | nil => rfl
  | cons y front ih =>
    rw [List.foldl_cons, hcomm b x y (hfront y List.mem_cons_self)]
    exact ih (fun z hz => hfront z (List.mem_cons_of_mem _ hz)) _

/-- A fold does not depend on how the elements of different kinds are interleaved, if those change places freely. -/
theorem foldl_eq_of_filter [DecidableEq κ] (hcomm : ∀ b x y, kind x ≠ kind y → f (f b x) y = f (f b y) x)
    {xs ys : List α} (h : ∀ k, xs.filter (kind · = k) = ys.filter (kind · = k)) (b : β) :
    xs.foldl f b = ys.foldl f b := by
  induction xs generalizing ys b with
  | nil =>
    cases ys with
    | nil => rfl
    | cons y ys => simpa using h (kind y)
  | cons x xs ih =>
    -- The first element of the one list is the first of its kind in the other, and can be moved to the front there.
    have hx := h (kind x)
    rw [List.filter_cons_of_pos (by simp), eq_comm, List.filter_eq_cons_iff] at hx
    obtain ⟨front, back, rfl, hfront, -, -⟩ := hx
    have hne : ∀ y ∈ front, kind x ≠ kind y := fun y hy heq => hfront y hy (by simp [heq])
    rw [List.foldl_append, List.foldl_cons, List.foldl_cons, ← foldl_pass hcomm hne, ← List.foldl_append]
    refine ih (fun k => ?_) _
    have hk := h k
    rw [List.filter_append] at hk ⊢
    by_cases hkind : kind x = k
    · have hnone : front.filter (kind · = k) = [] :=
        List.filter_eq_nil_iff.mpr fun y hy heq => hne y hy (hkind.trans (of_decide_eq_true heq).symm)
      rw [hnone, List.filter_cons_of_pos (by simp [hkind]), List.filter_cons_of_pos (by simp [hkind])] at hk
      rw [hnone]
      exact (List.cons.inj hk).2
    · rwa [List.filter_cons_of_neg (by simp [hkind]), List.filter_cons_of_neg (by simp [hkind])] at hk

end

theorem press_comm (s : Switch) (a b : Bool) : (s.press a).press b = (s.press b).press a := by
  cases a <;> cases b <;> rfl

theorem add_comm (h : x.kind ≠ y.kind) (p : Patch) : (p.add x).add y = (p.add y).add x := by
  cases x <;> cases y <;> simp_all [add, Change.kind, press_comm]

theorem ofList_eq_of_filter {calls calls' : List Change}
    (h : ∀ k, calls.filter (·.kind = k) = calls'.filter (·.kind = k)) : ofList calls = ofList calls' :=
  foldl_eq_of_filter (fun p _ _ hne => add_comm hne p) h empty

/-! ### Changes in their turn -/

/-- The change has its turn after those of the patch. -/
def Admits (p : Patch) : Change → Prop
  | .template _ => p.template = none
  | .fileName _ => p.fileName = none
  | .includeDate _ => p.includeDate = default
  | .hostColors _ => p.hostColors = none ∧ p.textColors = []
  | .categories _ => p.categories = none ∧ p.setCategories = [] ∧ p.removeCategories = []
  | .setCategory _ _ => p.removeCategories = []
  | _ => True

/-- The changes have their turns one after the other, after those of the patch. -/
def InTurn (p : Patch) : List Change → Prop
  | [] => True
  | x :: rest => p.Admits x ∧ (p.add x).InTurn rest

/-- The changes, in their turns, make the one patch into the other. -/
def Leads (p : Patch) (changes : List Change) (q : Patch) : Prop :=
  p.InTurn changes ∧ changes.foldl add p = q

namespace Leads
variable {xs ys : List Change}

theorem append (h : p.Leads xs q) (h' : q.Leads ys r) : p.Leads (xs ++ ys) r := by
  induction xs generalizing p with
  | nil =>
    obtain rfl : p = q := h.2
    exact h'
  | cons x xs ih =>
    obtain ⟨⟨hx, hturn⟩, hfold⟩ := h
    obtain ⟨hturn', hfold'⟩ := ih ⟨hturn, hfold⟩
    exact ⟨⟨hx, hturn'⟩, hfold'⟩

theorem add (h : p.Leads xs q) (hx : q.Admits x) : p.Leads (xs ++ [x]) (q.add x) :=
  h.append ⟨⟨hx, trivial⟩, rfl⟩

theorem option {α : Type} (h : p.Leads xs q) (f : α → Change) (set : Patch → Option α → Patch) (o : Option α)
    (hnone : set q none = q) (hsome : ∀ a, q.Admits (f a) ∧ q.add (f a) = set q (some a)) :
    p.Leads (xs ++ o.toList.map f) (set q o) := by
  cases o with
  | none =>
    rw [hnone]
    exact h.append ⟨trivial, rfl⟩
  | some a =>
    rw [← (hsome a).2]
    exact h.add (hsome a).1

theorem switch (h : p.Leads xs q) (f : Bool → Change) (set : Patch → Switch → Patch) {s : Switch}
    (hs : s.isConflict = false) (hnone : set q default = q)
    (hpress : ∀ side, q.Admits (f side) ∧ q.add (f side) = set q ((default : Switch).press side)) :
    p.Leads (xs ++ s.sides.map f) (set q s) := by
  rcases s.eq_default_or_press hs with rfl | ⟨side, rfl, hside⟩
  · rw [hnone]
    exact h.append ⟨trivial, rfl⟩
  · rw [hside, ← (hpress side).2]
    exact h.add (hpress side).1

theorem list {α : Type} (h : p.Leads xs q) (f : α → Change) (set : Patch → List α → Patch) (items : List α)
    (hnil : set q [] = q) (hsnoc : ∀ front a, (set q front).Admits (f a) ∧
      (set q front).add (f a) = set q (front ++ [a])) : p.Leads (xs ++ items.map f) (set q items) := by
  induction items using List.reverseRecOn with
  | nil =>
    rw [hnil]
    exact h.append ⟨trivial, rfl⟩
  | append_singleton front a ih =>
    rw [List.map_append, ← List.append_assoc, ← (hsnoc front a).2]
    exact ih.add (hsnoc front a).1

end Leads

theorem validateSwitches_single (x : Change) : (ofList [x]).validateSwitches = .ok () := by
  cases x with
  | includeDate side => cases side <;> rfl
  | overwrite side => cases side <;> rfl
  | writeToHost side => cases side <;> rfl
  | fromScript side => cases side <;> rfl
  | fromHost side => cases side <;> rfl
  | _ => rfl

/-- The changes of a valid patch, made in their order, lead from the empty patch to it. -/
theorem leads_changes (h : p.Checked) : empty.Leads p.changes p := by
  obtain ⟨hincludeDate, hoverwrite, hwriteToHost, hfromScript, hfromHost⟩ := validateSwitches_eq_ok_iff.mp h.switches
  have hstart : empty.Leads [] empty := ⟨trivial, rfl⟩
  have h := hstart.option .threshold (fun q o => { q with threshold := o }) p.threshold rfl fun _ => ⟨trivial, rfl⟩
  have h := h.option .template (fun q o => { q with template := o }) p.template rfl fun _ => ⟨rfl, rfl⟩
  have h := h.option .fileName (fun q o => { q with fileName := o }) p.fileName rfl fun _ => ⟨rfl, rfl⟩
  have h := h.switch .includeDate (fun q s => { q with includeDate := s }) hincludeDate rfl fun _ => ⟨rfl, rfl⟩
  have h := h.switch .overwrite (fun q s => { q with overwrite := s }) hoverwrite rfl fun _ => ⟨trivial, rfl⟩
  have h := h.switch .writeToHost (fun q s => { q with writeToHost := s }) hwriteToHost rfl fun _ => ⟨trivial, rfl⟩
  have h := h.switch .fromScript (fun q s => { q with fromScript := s }) hfromScript rfl fun _ => ⟨trivial, rfl⟩
  have h := h.switch .fromHost (fun q s => { q with fromHost := s }) hfromHost rfl fun _ => ⟨trivial, rfl⟩
  have h := h.option .hostColors (fun q o => { q with hostColors := o }) p.hostColors rfl fun _ => ⟨⟨rfl, rfl⟩, rfl⟩
  have h := h.list (fun c => .textColor c.1 c.2) (fun q l => { q with textColors := l }) p.textColors rfl
    fun _ _ => ⟨trivial, rfl⟩
  have h := h.option .categories (fun q o => { q with categories := o }) p.categories rfl
    fun _ => ⟨⟨rfl, rfl, rfl⟩, rfl⟩
  have h := h.list (fun c => .setCategory c.1 c.2) (fun q l => { q with setCategories := l }) p.setCategories rfl
    fun _ _ => ⟨rfl, rfl⟩
  exact h.list .removeCategory (fun q l => { q with removeCategories := l }) p.removeCategories rfl
    fun _ _ => ⟨trivial, rfl⟩

/-! ### One change after a patch -/

theorem switches_of_add (h : (p.add x).validateSwitches = .ok ()) :
    p.validateSwitches = .ok () ∧ (ofList [x]).validateSwitches = .ok () := by
  refine ⟨?_, validateSwitches_single x⟩
  rw [validateSwitches_eq_ok_iff] at h ⊢
  cases x <;> simp_all [add, Switch.isConflict_press_eq_false]

theorem colors_of_add (hx : p.Admits x) (h : (p.add x).validateColors = .ok ()) :
    p.validateColors = .ok () ∧ (ofList [x]).validateColors = .ok () := by
  cases x with
  | hostColors t =>
    obtain ⟨htable, hsingle⟩ := hx
    simp only [validateColors, add, htable, hsingle, ofList, List.foldl_cons, List.foldl_nil] at h ⊢
    exact ⟨rfl, h⟩
  | textColor s color =>
    have hany := validateColors_eq_ok_iff.mp h
    simp only [add, List.any_append, ← Bool.or_assoc, Bool.or_eq_false_iff] at hany
    exact ⟨validateColors_eq_ok_iff.mpr (Bool.or_eq_false_iff.mpr hany.1), validateColors_eq_ok_iff.mpr hany.2⟩
  | _ => exact ⟨h, rfl⟩

theorem table_of_add (hx : p.Admits x) (h : (p.add x).validateTable = .ok ()) :
    p.validateTable = .ok () ∧ (ofList [x]).validateTable = .ok () := by
  cases x with
  | categories t =>
    refine ⟨?_, h⟩
    rw [validateTable, hx.1]
  | _ => exact ⟨h, rfl⟩

theorem names_of_add (h : (p.add x).validateNames = .ok ()) :
    p.validateNames = .ok () ∧ (ofList [x]).validateNames = .ok () := by
  cases x with
  | setCategory name category =>
    rw [validateNames_eq_ok_iff] at h
    exact ⟨validateNames_eq_ok_iff.mpr fun c hc => h c (List.mem_append_left _ hc),
      validateNames_eq_ok_iff.mpr fun c hc => h c (List.mem_append_right _ hc)⟩
  | _ => exact ⟨h, rfl⟩

theorem Checked.of_add (h : (p.add x).Checked) (hx : p.Admits x) : p.Checked ∧ (ofList [x]).Checked := by
  obtain ⟨hswitches, hswitches'⟩ := switches_of_add h.switches
  obtain ⟨hcolors, hcolors'⟩ := colors_of_add hx h.colors
  obtain ⟨htable, htable'⟩ := table_of_add hx h.table
  obtain ⟨hnames, hnames'⟩ := names_of_add h.names
  exact ⟨⟨hswitches, hcolors, htable, hnames⟩, ⟨hswitches', hcolors', htable', hnames'⟩⟩

theorem checked_of_inTurn {xs : List Change} (hturn : p.InTurn xs) (h : (xs.foldl add p).Checked) : p.Checked := by
  induction xs generalizing p with
  | nil => exact h
  | cons x xs ih =>
    obtain ⟨hx, hturn⟩ := hturn
    exact ((ih hturn h).of_add hx).1

theorem applyCategories_add (hx : p.Admits x) {before t u : CategoryTable} (ht : p.applyCategories before = .ok t)
    (hu : (ofList [x]).applyCategories t = .ok u) : (p.add x).applyCategories before = .ok u := by
  cases x with
  | categories table =>
    obtain ⟨-, hset, hremoved⟩ := hx
    rw [applyCategories_eq_ok] at hu ⊢
    rwa [add, hset, hremoved]
  | setCategory name category =>
    obtain ⟨v, hv, rfl⟩ := applyCategories_eq_ok.mp ht
    obtain ⟨w, hw, rfl⟩ := applyCategories_eq_ok.mp hu
    rw [hx] at hw
    refine applyCategories_eq_ok.mpr ⟨w, CategoryTable.setAll_append_eq_ok.mpr ⟨v, hv, hw⟩, ?_⟩
    rw [add, hx]
    rfl
  | removeCategory name =>
    obtain ⟨v, hv, rfl⟩ := applyCategories_eq_ok.mp ht
    obtain rfl := Except.ok.inj hu
    exact applyCategories_eq_ok.mpr ⟨v, hv, List.foldl_append⟩
  | _ =>
    obtain rfl := Except.ok.inj hu
    exact ht

theorem applyColors_add (hx : p.Admits x) (before : HostColors) :
    (p.add x).applyColors before = (ofList [x]).applyColors (p.applyColors before) := by
  cases x with
  | hostColors t => rw [applyColors, add, hx.2]; rfl
  | textColor s color => exact List.foldl_append
  | _ => rfl

theorem writeToHost_add (h : (p.add x).validateSwitches = .ok ()) (before : Bool) :
    (p.add x).writeToHost.apply before = (ofList [x]).writeToHost.apply (p.writeToHost.apply before) := by
  obtain ⟨-, -, hwriteToHost, -, -⟩ := validateSwitches_eq_ok_iff.mp h
  cases x with
  | writeToHost side => exact Switch.apply_press hwriteToHost before
  | _ => rfl

theorem applyFile_add (h : (p.add x).validateSwitches = .ok ()) (before : FileSettings) :
    (p.add x).applyFile before = (ofList [x]).applyFile (p.applyFile before) := by
  obtain ⟨hincludeDate, hoverwrite, -, hfromScript, hfromHost⟩ := validateSwitches_eq_ok_iff.mp h
  cases x with
  | includeDate side => rw [applyFile, add, Switch.apply_press hincludeDate]; rfl
  | overwrite side => rw [applyFile, add, Switch.apply_press hoverwrite]; rfl
  | fromScript side => rw [applyFile, add, Switch.apply_press hfromScript]; rfl
  | fromHost side => rw [applyFile, add, Switch.apply_press hfromHost]; rfl
  | _ => rfl

/-- A change in its turn does after the patch what it does at the end of it. -/
theorem apply_add (hx : p.Admits x) (h : (p.add x).Checked) (hd : p.apply c = .ok d)
    (he : (ofList [x]).apply d = .ok e) : (p.add x).apply c = .ok e := by
  obtain ⟨-, t, ht, rfl⟩ := apply_eq_ok.mp hd
  obtain ⟨-, u, hu, rfl⟩ := apply_eq_ok.mp he
  refine apply_eq_ok.mpr ⟨validate_eq_ok_iff.mpr h, u, applyCategories_add hx ht hu, ?_⟩
  rw [applyColors_add hx, writeToHost_add h.switches, applyFile_add h.switches]
  cases x <;> rfl

/-- What decides about the template and the path is changed by the patch or by a change in its turn, not by both. -/
theorem changed_once (hx : p.Admits x) (hd : p.apply c = .ok d) (he : (ofList [x]).apply d = .ok e) :
    (d.template = c.template ∨ e.template = d.template) ∧ (d.file.name = c.file.name ∨ e.file.name = d.file.name) ∧
      (d.file.includeDate = c.file.includeDate ∨ e.file.includeDate = d.file.includeDate) := by
  obtain ⟨-, t, -, rfl⟩ := apply_eq_ok.mp hd
  obtain ⟨-, u, -, rfl⟩ := apply_eq_ok.mp he
  cases x with
  | template text => exact ⟨.inl (congrArg (·.getD c.template) hx), .inr rfl, .inr rfl⟩
  | fileName name => exact ⟨.inr rfl, .inl (congrArg (·.getD c.file.name) hx), .inr rfl⟩
  | includeDate side => exact ⟨.inr rfl, .inr rfl, .inl (congrArg (·.apply c.file.includeDate) hx)⟩
  | _ => exact ⟨.inr rfl, .inr rfl, .inr rfl⟩

end Patch
end Logbook
