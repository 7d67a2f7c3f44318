import Logbook.Path

/-! The steps of a path that was put together: those of the directory come first, and the segments of what was read
    from there follow. A plain name adds itself as the last step. -/

namespace Logbook
namespace Path

/-! ### Segments -/

theorem not_mem_of_mem_splitOn {a : Char} : ∀ {s segment : List Char}, segment ∈ s.splitOn a → a ∉ segment
  | [], segment, h => by simp_all
  | c :: s, segment, h => by
    rw [List.splitOn_cons_eq_if_modifyHead] at h
    by_cases hc : c = a
    · rw [if_pos (by simpa using hc)] at h
      rcases List.mem_cons.mp h with rfl | h
      · simp
      · exact not_mem_of_mem_splitOn h
    · rw [if_neg (by simpa using hc)] at h
      cases hs : s.splitOn a with
      | nil => exact absurd hs (List.splitOn_ne_nil a s)
      | cons first rest =>
        rw [hs, List.modifyHead_cons] at h
        rcases List.mem_cons.mp h with rfl | h
        · have hfirst : a ∉ first := not_mem_of_mem_splitOn (hs ▸ List.mem_cons_self)
          simp [Ne.symm hc, hfirst]
        · exact not_mem_of_mem_splitOn (hs ▸ List.mem_cons_of_mem _ h)

theorem mem_of_mem_settle {segments : List (List Char)} {segment : List Char} (h : segment ∈ settle segments) :
    segment ∈ segments := by
  have h' := (List.dropWhile_sublist isIdle).mem (List.mem_reverse.mp h)
  exact List.mem_reverse.mp h'

theorem slash_not_mem_lastSegment {p : Path} {segment : List Char} (h : p.lastSegment? = some segment) :
    '/' ∉ segment :=
  not_mem_of_mem_splitOn (mem_of_mem_settle (List.mem_of_getLast? h))

theorem slash_not_mem_fileName {p : Path} {name : String} (h : p.fileName? = some name) : '/' ∉ name.toList := by
  unfold fileName? at h
  split at h
  · next segment hs =>
    split at h
    · cases h
    · obtain rfl := Option.some.inj h
      rw [String.toList_ofList]
      exact slash_not_mem_lastSegment hs
  · cases h

theorem slash_not_mem_splitName {name : String} (h : '/' ∉ name.toList) :
    '/' ∉ (splitName name).1.toList ∧ ∀ extension, (splitName name).2 = some extension → '/' ∉ extension.toList := by
  have hr : '/' ∉ name.toList.reverse := by simpa using h
  have hstem : ∀ {c : Char} {stem : List Char}, name.toList.reverse.dropWhile (· != '.') = c :: stem → '/' ∉ stem := by
    intro c stem hd hc
    exact hr ((List.dropWhile_sublist _).mem (hd ▸ List.mem_cons_of_mem _ hc))
  unfold splitName
  dsimp only
  split
  · exact ⟨h, fun _ he => by cases he⟩
  · exact ⟨h, fun _ he => by cases he⟩
  · next c stem _ hd =>
    refine ⟨by simpa using hstem hd, fun extension he => ?_⟩
    obtain rfl := Option.some.inj he
    simp only [String.toList_ofList, List.mem_reverse]
    exact fun hc => hr ((List.takeWhile_sublist _).mem hc)

/-! ### Steps -/

/-- The steps of a text, cut at its slashes. -/
def stepsOf (s : List Char) : List Component :=
  (s.splitOn '/').filterMap Component.ofSegment?

theorem stepsOf_append_slash (s t : List Char) : stepsOf (s ++ '/' :: t) = stepsOf s ++ stepsOf t := by
  rw [stepsOf, List.splitOn_append_cons_self, List.filterMap_append, stepsOf, stepsOf]

theorem stepsOf_nil : stepsOf [] = [] := by
  simp [stepsOf, Component.ofSegment?, isIdle]

theorem components_eq (p : Path) :
    p.components =
      Component.ofLead (leadOf p.text.toList) ++ stepsOf (p.text.toList.drop (leadOf p.text.toList).length) :=
  rfl

theorem leadOf_append_slash {s : List Char} (h : s ≠ []) (t : List Char) : leadOf (s ++ '/' :: t) = leadOf s := by
  match s, h with
  | [c], _ => by_cases h1 : c = '/' <;> by_cases h2 : c = '.' <;> simp_all [leadOf]
  | c :: d :: s, _ => by_cases h1 : c = '/' <;> by_cases h2 : c = '.' <;> by_cases h3 : d = '/' <;> simp_all [leadOf]

theorem length_leadOf_le (s : List Char) : (leadOf s).length ≤ s.length := by
  have h := congrArg List.length (leadOf_append_drop s)
  rw [List.length_append] at h
  omega

theorem segmentsOf_append_slash {s : List Char} (h : s ≠ []) (t : List Char) :
    segmentsOf (s ++ '/' :: t) = segmentsOf s ++ t.splitOn '/' := by
  rw [segmentsOf, leadOf_append_slash h, List.drop_append_of_le_length (length_leadOf_le s),
    List.splitOn_append_cons_self, segmentsOf]

theorem components_append_slash {s : List Char} (h : s ≠ []) (t : List Char) :
    components ⟨String.ofList (s ++ '/' :: t)⟩ = components ⟨String.ofList s⟩ ++ stepsOf t := by
  rw [components, components, String.toList_ofList, String.toList_ofList, leadOf_append_slash h,
    segmentsOf_append_slash h, List.filterMap_append, List.append_assoc, stepsOf]

theorem join_of_isEmpty {base : Path} (h : base.isEmpty = true) (p : Path) : base.join p = p := by
  have hbase : base.text = "" := by simpa [isEmpty] using h
  unfold join
  split
  · rfl
  · simp [h, hbase]

/-- A relative path follows the directory that it is read from after one slash, which may be the directory's own. -/
theorem join_eq {base p : Path} (hb : base.isEmpty = false) (hp : p.isAbsolute = false) :
    ∃ front, (base.text.toList = front ++ ['/'] ∨ base.text.toList = front) ∧
      base.join p = ⟨String.ofList (front ++ '/' :: p.text.toList)⟩ := by
  obtain ⟨base⟩ := base
  obtain ⟨p⟩ := p
  unfold join
  rw [if_neg (by simp [hp]), hb, Bool.false_or]
  by_cases hslash : base.toList.getLast? = some '/'
  · obtain ⟨front, hfront⟩ := List.getLast?_eq_some_iff.mp hslash
    rw [if_pos (by simpa using hslash)]
    refine ⟨front, .inl hfront, congrArg Path.mk (String.toList_injective ?_)⟩
    simp [hfront]
  · rw [if_neg (by simpa using hslash)]
    refine ⟨base.toList, .inr rfl, congrArg Path.mk (String.toList_injective ?_)⟩
    simp

/-- A relative path that is read from a directory adds its steps to those of the directory. -/
theorem components_join {base p : Path} (hb : base.isEmpty = false) (hp : p.isAbsolute = false) :
    (base.join p).components = base.components ++ stepsOf p.text.toList := by
  obtain ⟨base⟩ := base
  have hne : base.toList ≠ [] := by simpa [isEmpty] using hb
  obtain ⟨front, hfront | rfl, hjoin⟩ := join_eq hb hp
  · -- The directory ends with a slash: it is the root, or the slash can be taken away from it.
    obtain rfl : base = String.ofList (front ++ '/' :: []) := String.toList_injective (by simp [hfront])
    rw [hjoin]
    by_cases hf : front = []
    · subst hf
      simp [components_eq, leadOf, stepsOf_nil]
    · rw [components_append_slash hf, components_append_slash hf, stepsOf_nil, List.append_nil]
  · rw [hjoin, components_append_slash hne, String.ofList_toList]

/-! ### Plain names -/

/-- A text that is one step of a path by itself. -/
structure IsName (s : List Char) : Prop where
  slash : '/' ∉ s
  busy : isIdle s = false
  down : s ≠ ['.', '.']

theorem IsName.stepsOf {s : List Char} (h : IsName s) : stepsOf s = [.name (String.ofList s)] := by
  rw [Path.stepsOf, List.splitOn_eq_singleton h.slash]
  simp [Component.ofSegment?, h.busy, h.down]

theorem IsName.leadOf {s : List Char} (h : IsName s) : leadOf s = [] := by
  have hslash := h.slash
  have hbusy := h.busy
  unfold Path.leadOf
  split <;> simp_all [isIdle]

theorem IsName.isAbsolute {name : String} (h : IsName name.toList) : isAbsolute ⟨name⟩ = false := by
  have hslash := h.slash
  unfold Path.isAbsolute
  cases hs : name.toList with
  | nil => rfl
  | cons c s =>
    rw [hs] at hslash
    simp only [List.mem_cons, not_or] at hslash
    simp [Ne.symm hslash.1]

theorem components_of_isEmpty {p : Path} (h : p.isEmpty = true) : p.components = [] := by
  obtain ⟨p⟩ := p
  obtain rfl : p = "" := by simpa [isEmpty] using h
  rfl

/-- A name that is read from a directory is one further step. -/
theorem components_join_name {base : Path} {name : String} (h : IsName name.toList) :
    (base.join ⟨name⟩).components = base.components ++ [.name name] := by
  cases hb : base.isEmpty
  · rw [components_join hb h.isAbsolute, h.stepsOf, String.ofList_toList]
  · rw [join_of_isEmpty hb, components_of_isEmpty hb, components_eq, h.leadOf, List.length_nil, List.drop_zero,
      h.stepsOf, String.ofList_toList]
    rfl

theorem getLast?_components_join {base : Path} {name : String} (h : IsName name.toList) :
    (base.join ⟨name⟩).components.getLast? = some (.name name) := by
  rw [components_join_name h, List.getLast?_concat]

theorem head?_components (segments : List (List Char)) : (segments.filterMap Component.ofSegment?).head? =
    (segments.dropWhile isIdle).head?.map fun segment =>
      if segment = ['.', '.'] then .up else .name (String.ofList segment) := by
  induction segments with
  | nil => rfl
  | cons segment segments ih =>
    cases hidle : isIdle segment
    · have hsome : Component.ofSegment? segment =
          some (if segment = ['.', '.'] then .up else .name (String.ofList segment)) := by
        rw [Component.ofSegment?, hidle, if_neg Bool.false_ne_true, ← apply_ite]
      rw [List.filterMap_cons_some hsome, List.dropWhile_cons_of_neg (by simp [hidle])]
      rfl
    · have hnone : Component.ofSegment? segment = none := by rw [Component.ofSegment?, if_pos hidle]
      rw [List.filterMap_cons_none hnone, List.dropWhile_cons_of_pos hidle, ih]

/-- The last step is that of the last segment; without segments it is what leads the path. -/
theorem getLast?_components (p : Path) : p.components.getLast? =
    (p.lastSegment?.map fun segment => if segment = ['.', '.'] then .up else .name (String.ofList segment)).or
      (Component.ofLead (leadOf p.text.toList)).getLast? := by
  rw [components, List.getLast?_append, lastSegment?, settle, List.getLast?_reverse, ← head?_components,
    List.filterMap_reverse, List.head?_reverse]

theorem getLast?_ofLead_ne (lead : List Char) (name : String) :
    (Component.ofLead lead).getLast? ≠ some (.name name) := by
  unfold Component.ofLead
  split <;> simp

/-- A path has a file name exactly if its last step is that name. -/
theorem fileName?_eq_some_iff {p : Path} {name : String} :
    p.fileName? = some name ↔ p.components.getLast? = some (.name name) := by
  rw [getLast?_components, fileName?]
  cases p.lastSegment? with
  | none => simpa using getLast?_ofLead_ne _ name
  | some segment =>
    by_cases hup : segment = ['.', '.']
    · simp [hup]
    · simp [hup]

/-- What leads a relative path is no segment of it, or an idle one. -/
theorem stepsOf_drop_leadOf {s : List Char} (h : s.head? ≠ some '/') :
    stepsOf (s.drop (leadOf s).length) = stepsOf s := by
  unfold leadOf
  split
  · exact absurd rfl h
  · rfl
  · next rest =>
    show stepsOf ([] ++ '/' :: rest) = stepsOf (['.'] ++ '/' :: rest)
    rw [stepsOf_append_slash, stepsOf_append_slash]
    rfl
  · rfl

/-- The file name of a path stays what it is when the path is read from a directory. -/
theorem fileName?_join {p : Path} {name : String} (h : p.fileName? = some name) (base : Path) :
    (base.join p).fileName? = some name := by
  cases hp : p.isAbsolute
  · cases hb : base.isEmpty
    · rw [fileName?_eq_some_iff] at h ⊢
      rw [components_eq, stepsOf_drop_leadOf (by simpa [isAbsolute] using hp), List.getLast?_append] at h
      rw [components_join hb hp, List.getLast?_append]
      cases hlast : (stepsOf p.text.toList).getLast? with
      | none =>
        rw [hlast, Option.none_or] at h
        exact absurd h (getLast?_ofLead_ne _ name)
      | some step =>
        rw [hlast] at h
        exact h
    · rw [join_of_isEmpty hb]
      exact h
  · rw [join_of_isAbsolute hp]
    exact h

theorem join_isEmpty {base p : Path} (h : p.isEmpty = false) : (base.join p).isEmpty = false := by
  have hp : p.text ≠ "" := by simpa [isEmpty] using h
  unfold join
  split
  · exact h
  · split <;> simp [isEmpty, hp]

end Path
end Logbook
