import Mathlib.Data.List.DropRight
import Logbook.Proofs.Path.Joined

/-! The directory and the name that a path is made of. The directory is written without idle segments at its end, and so
    it is found again as the parent of any name that is read from it. Main statements: a path keeps its parent when its
    file name is replaced, and a file name is cut into stem and extension at its last dot. -/

namespace Logbook
namespace Path

/-! ### Segments that are put together -/

theorem intercalate_append {xs ys : List (List Char)} (hx : xs ≠ []) (hy : ys ≠ []) :
    ['/'].intercalate (xs ++ ys) = ['/'].intercalate xs ++ '/' :: ['/'].intercalate ys := by
  induction xs with
  | nil => exact absurd rfl hx
  | cons x xs ih =>
    cases xs with
    | nil => simp [List.intercalate_cons_of_ne_nil hy]
    | cons x' xs =>
      have hrest := ih (List.cons_ne_nil x' xs)
      rw [List.cons_append] at hrest
      rw [List.cons_append, List.cons_append, List.intercalate_cons_cons, hrest, List.intercalate_cons_cons,
        List.append_assoc, List.append_assoc, List.append_assoc]

/-- Where segments are left away at the end of a text, it ends before a slash. -/
theorem textOf_append (lead : List Char) {xs : List (List Char)} (hx : xs ≠ []) (ys : List (List Char)) :
    textOf lead (xs ++ ys) = textOf lead xs ∨ ∃ rest, textOf lead (xs ++ ys) = textOf lead xs ++ '/' :: rest := by
  cases ys with
  | nil => exact .inl (by rw [List.append_nil])
  | cons y ys =>
    refine .inr ⟨['/'].intercalate (y :: ys), ?_⟩
    rw [textOf, intercalate_append hx (List.cons_ne_nil _ _), ← List.append_assoc, textOf]

/-! ### Settled texts -/

theorem settle_eq (segments : List (List Char)) : settle segments = segments.rdropWhile isIdle := rfl

/-- The text has no idle segments at its end, so it is shown as it is when it is a parent. -/
def Settled (s : List Char) : Prop :=
  textOf (leadOf s) (settle (segmentsOf s)) = s

theorem settled_leadOf (s : List Char) : Settled (leadOf s) := by
  unfold leadOf
  split <;> rfl

theorem leadOf_leadOf (s : List Char) : leadOf (leadOf s) = leadOf s := by
  have hlead : leadOf s = ['/'] ∨ leadOf s = ['.'] ∨ leadOf s = [] := by
    unfold leadOf
    split <;> simp
  rcases hlead with h | h | h <;> rw [h] <;> rfl

section
variable {s : List Char} {segments : List (List Char)}

theorem splitOn_intercalate_segments (hfirst : segments <+: segmentsOf s) (hne : segments ≠ []) :
    (['/'].intercalate segments).splitOn '/' = segments :=
  List.splitOn_intercalate '/' (fun _ h => not_mem_of_mem_splitOn (hfirst.subset h)) hne

/-- A text that keeps the first segments of another keeps its lead. -/
theorem leadOf_textOf (hfirst : segments <+: segmentsOf s) (hsettled : settle segments = segments) :
    leadOf (textOf (leadOf s) segments) = leadOf s := by
  by_cases hne : segments = []
  · rw [hne, textOf, List.intercalate_nil, List.append_nil, leadOf_leadOf]
  · -- The text ends before a slash of `s` or with it, so both start the same way.
    have hsplit := splitOn_intercalate_segments hfirst hne
    have htext : textOf (leadOf s) segments ≠ [] := by
      intro h
      obtain ⟨-, hnil⟩ := List.append_eq_nil_iff.mp h
      rw [hnil] at hsplit
      rw [← hsplit] at hsettled
      cases hsettled
    obtain ⟨rest, hrest⟩ := hfirst
    have hs := textOf_segmentsOf s
    rw [← hrest] at hs
    rcases textOf_append (leadOf s) hne rest with h | ⟨tail, h⟩
    · rw [← h, hs]
    · rw [← leadOf_append_slash htext tail, ← h, hs]

theorem segmentsOf_textOf (hfirst : segments <+: segmentsOf s) (hsettled : settle segments = segments)
    (hne : segments ≠ []) : segmentsOf (textOf (leadOf s) segments) = segments := by
  rw [segmentsOf, leadOf_textOf hfirst hsettled, textOf, List.drop_left, splitOn_intercalate_segments hfirst hne]

theorem settled_textOf (hfirst : segments <+: segmentsOf s) (hsettled : settle segments = segments) :
    Settled (textOf (leadOf s) segments) := by
  by_cases hne : segments = []
  · rw [hne]
    simpa [textOf] using settled_leadOf s
  · rw [Settled, leadOf_textOf hfirst hsettled, segmentsOf_textOf hfirst hsettled hne, hsettled]

/-- Its steps are those of the segments that it keeps. -/
theorem components_textOf (hfirst : segments <+: segmentsOf s) (hsettled : settle segments = segments) :
    components ⟨String.ofList (textOf (leadOf s) segments)⟩ =
      Component.ofLead (leadOf s) ++ segments.filterMap Component.ofSegment? := by
  rw [components, String.toList_ofList, leadOf_textOf hfirst hsettled]
  by_cases hne : segments = []
  · have hread : segmentsOf (textOf (leadOf s) segments) = [[]] := by
      rw [segmentsOf, leadOf_textOf hfirst hsettled, hne, textOf, List.intercalate_nil, List.append_nil,
        List.drop_length, List.splitOn_nil]
    rw [hread, hne]
    rfl
  · rw [segmentsOf_textOf hfirst hsettled hne]

end

theorem length_textOf_le (lead : List Char) {xs ys : List (List Char)} (h : xs <+: ys) :
    (textOf lead xs).length ≤ (textOf lead ys).length := by
  obtain ⟨rest, rfl⟩ := h
  by_cases hx : xs = []
  · simp [hx, textOf]
  · rcases textOf_append lead hx rest with h | ⟨tail, h⟩ <;> rw [h]
    rw [List.length_append]
    exact Nat.le_add_right _ _

/-- Of the texts with a slash at the end only the root is settled. -/
theorem Settled.eq_nil_of_slash {front : List Char} (h : Settled (front ++ ['/'])) : front = [] := by
  by_contra hfront
  have hidle : settle (segmentsOf (front ++ ['/'])) = settle (segmentsOf front) := by
    rw [segmentsOf_append_slash hfront, List.splitOn_nil, settle_eq, List.rdropWhile_concat_pos _ _ _ rfl, settle_eq]
  rw [Settled, leadOf_append_slash hfront, hidle] at h
  have hle := length_textOf_le (leadOf front) (List.rdropWhile_prefix isIdle (segmentsOf front))
  rw [textOf_segmentsOf, ← settle_eq, h, List.length_append] at hle
  exact absurd hle (by simp)

/-! ### Parents -/

theorem parent?_of_ne_nil {s : List Char} (h : settle (segmentsOf s) ≠ []) :
    parent? ⟨String.ofList s⟩ =
      some ⟨String.ofList (textOf (leadOf s) (settle (settle (segmentsOf s)).dropLast))⟩ := by
  rw [parent?, String.toList_ofList]
  cases hsegments : settle (segmentsOf s) with
  | nil => exact absurd hsegments h
  | cons first rest => rfl

theorem IsName.settle_concat {name : List Char} (h : IsName name) (segments : List (List Char)) :
    settle (segments ++ [name]) = segments ++ [name] := by
  rw [settle_eq, List.rdropWhile_concat_neg]
  simp [h.busy]

/-- Without a name at its end the text is that of a directory, but for idle segments. -/
theorem parent?_of_concat {s name : List Char} {segments : List (List Char)} (hname : IsName name)
    (h : segmentsOf s = segments ++ [name]) :
    parent? ⟨String.ofList s⟩ = some ⟨String.ofList (textOf (leadOf s) (settle segments))⟩ := by
  have hsettle : settle (segmentsOf s) = segments ++ [name] := by rw [h, hname.settle_concat]
  rw [parent?_of_ne_nil (by simp [hsettle]), hsettle, List.dropLast_concat]

theorem settled_parent {p q : Path} (h : p.parent? = some q) : Settled q.text.toList := by
  unfold parent? at h
  dsimp only at h
  split at h
  · split at h
    · obtain rfl := Option.some.inj h
      rfl
    · cases h
  · next first rest hsegments =>
    obtain rfl := Option.some.inj h
    rw [String.toList_ofList]
    refine settled_textOf ?_ (List.rdropWhile_idempotent isIdle _)
    have hkept : first :: rest <+: segmentsOf p.text.toList := by
      rw [← hsegments]
      exact List.rdropWhile_prefix isIdle _
    exact ((List.rdropWhile_prefix isIdle _).trans (List.dropLast_prefix _)).trans hkept

/-- A name that is read from a directory has that as its parent. -/
theorem parent?_join {q : Path} (hq : Settled q.text.toList) {name : String} (hname : IsName name.toList) :
    (q.join ⟨name⟩).parent? = some q := by
  obtain ⟨q⟩ := q
  have hsplit : name.toList.splitOn '/' = [name.toList] := List.splitOn_eq_singleton hname.slash
  cases hempty : isEmpty ⟨q⟩
  · obtain ⟨front, hfront | rfl, hjoin⟩ := join_eq hempty hname.isAbsolute
    · obtain rfl := Settled.eq_nil_of_slash (hfront ▸ hq)
      obtain rfl : q = "/" := String.toList_injective hfront
      rw [hjoin]
      exact @parent?_of_concat _ _ [] hname hsplit
    · have hne : q.toList ≠ [] := by simpa [isEmpty] using hempty
      have hsegments := segmentsOf_append_slash hne name.toList
      rw [hsplit] at hsegments
      rw [hjoin, parent?_of_concat hname hsegments, leadOf_append_slash hne, hq, String.ofList_toList]
  · obtain rfl : q = "" := by simpa [isEmpty] using hempty
    have hsegments : segmentsOf name.toList = [] ++ [name.toList] := by
      rw [segmentsOf, hname.leadOf]
      exact hsplit
    have hparent := parent?_of_concat hname hsegments
    rw [String.ofList_toList, hname.leadOf] at hparent
    rw [join_of_isEmpty hempty]
    exact hparent

/-- The last segment of a path with a file name is that name. -/
theorem settle_of_fileName {p : Path} {name : String} (h : p.fileName? = some name) :
    ∃ segments, settle (segmentsOf p.text.toList) = segments ++ [name.toList] ∧ IsName name.toList := by
  have hslash := slash_not_mem_fileName h
  unfold fileName? at h
  split at h
  · next segment hlast =>
    split at h
    · cases h
    · next hup =>
      obtain rfl := Option.some.inj h
      rw [String.toList_ofList] at hslash ⊢
      obtain ⟨segments, hsegments⟩ := List.getLast?_eq_some_iff.mp hlast
      have hkept := List.rdropWhile_last_not isIdle (segmentsOf p.text.toList) (by rw [← settle_eq, hsegments]; simp)
      exact ⟨segments, hsegments, hslash, by simpa [← settle_eq, hsegments] using hkept, hup⟩
  · cases h

theorem exists_parent {p : Path} {name : String} (h : p.fileName? = some name) : ∃ q, p.parent? = some q := by
  obtain ⟨p⟩ := p
  obtain ⟨segments, hsegments, -⟩ := settle_of_fileName h
  have hparent := parent?_of_ne_nil (s := p.toList) (by rw [hsegments]; simp)
  rw [String.ofList_toList] at hparent
  exact ⟨_, hparent⟩

theorem filterMap_settle (segments : List (List Char)) :
    (settle segments).filterMap Component.ofSegment? = segments.filterMap Component.ofSegment? := by
  induction segments using List.reverseRecOn with
  | nil => rfl
  | append_singleton segments segment ih =>
    rw [settle_eq] at ih ⊢
    cases hidle : isIdle segment
    · rw [List.rdropWhile_concat_neg _ _ _ (by simp [hidle])]
    · have hnone : Component.ofSegment? segment = none := by rw [Component.ofSegment?, if_pos hidle]
      rw [List.rdropWhile_concat_pos _ _ _ hidle, ih, List.filterMap_append, List.filterMap_cons_none hnone,
        List.filterMap_nil, List.append_nil]

/-- The steps of a path with a file name are those of its parent and then the name. -/
theorem components_of_parent {p q : Path} {name : String} (hname : p.fileName? = some name)
    (hparent : p.parent? = some q) : p.components = q.components ++ [.name name] := by
  obtain ⟨segments, hsegments, hstep⟩ := settle_of_fileName hname
  have hfirst : settle segments <+: segmentsOf p.text.toList := by
    have hkept : segments ++ [name.toList] <+: segmentsOf p.text.toList := by
      rw [← hsegments]
      exact List.rdropWhile_prefix isIdle _
    exact (List.rdropWhile_prefix isIdle _).trans ((List.prefix_append _ _).trans hkept)
  have hq : q = ⟨String.ofList (textOf (leadOf p.text.toList) (settle segments))⟩ := by
    have h := parent?_of_ne_nil (s := p.text.toList) (by rw [hsegments]; simp)
    rw [String.ofList_toList, hparent, hsegments, List.dropLast_concat] at h
    exact Option.some.inj h
  have hlast : Component.ofSegment? name.toList = some (.name name) := by
    simp [Component.ofSegment?, hstep.busy, hstep.down]
  rw [hq, components_textOf hfirst (List.rdropWhile_idempotent isIdle _), filterMap_settle, components,
    ← filterMap_settle, hsegments, List.filterMap_append, List.filterMap_cons_some hlast, List.filterMap_nil,
    List.append_assoc]

/-- A path whose file name is replaced lies where it lay. -/
theorem withFileName_of_fileName {p : Path} {last name : String} (hlast : p.fileName? = some last)
    (hname : IsName name.toList) : (p.withFileName name).fileName? = some name ∧
      ∃ directory, p.parent? = some directory ∧ (p.withFileName name).parent? = some directory := by
  obtain ⟨directory, hparent⟩ := exists_parent hlast
  have hjoin : p.withFileName name = directory.join ⟨name⟩ := by rw [withFileName, hlast, hparent]; rfl
  rw [hjoin]
  exact ⟨fileName?_eq_some_iff.mpr (getLast?_components_join hname), directory, hparent,
    parent?_join (settled_parent hparent) hname⟩

/-! ### Stems and extensions -/

/-- An extension as it stands in a file name. -/
def dotted : Option String → String
  | none => ""
  | some extension => "." ++ extension

theorem slash_not_mem_dotted {name : String} (h : '/' ∉ name.toList) : '/' ∉ (dotted (splitName name).2).toList := by
  have hextension := (slash_not_mem_splitName h).2
  cases hsplit : (splitName name).2 with
  | none => simp [dotted]
  | some extension => simpa [dotted] using hextension extension hsplit

/-- A name is its stem and its extension: cut at the last dot, unless that is the first letter. -/
structure SplitsInto (name stem : String) (extension? : Option String) : Prop where
  whole : name = stem ++ dotted extension?
  last : ∀ extension, extension? = some extension → '.' ∉ extension.toList ∧ stem ≠ ""
  uncut : extension? = none → '.' ∉ name.toList.tail

theorem splitsInto_splitName (name : String) : SplitsInto name (splitName name).1 (splitName name).2 := by
  -- The name from its end: what has no dot comes first, then a dot if there is one.
  have hwhole : name.toList = (name.toList.reverse.dropWhile (· != '.')).reverse ++
      (name.toList.reverse.takeWhile (· != '.')).reverse := by
    rw [← List.reverse_append, List.takeWhile_append_dropWhile, List.reverse_reverse]
  have hdotless : '.' ∉ name.toList.reverse.takeWhile (· != '.') := fun h => by
    simpa using List.mem_takeWhile_imp h
  have hdot := List.head?_dropWhile_not (· != '.') name.toList.reverse
  unfold splitName
  dsimp only
  generalize name.toList.reverse.takeWhile (· != '.') = back at hwhole hdotless
  split
  · next hd =>
    rw [hd, List.reverse_nil, List.nil_append] at hwhole
    refine ⟨by simp [dotted], nofun, fun _ h => hdotless ?_⟩
    rw [hwhole] at h
    exact List.mem_reverse.mp (List.mem_of_mem_tail h)
  · next c hd =>
    rw [hd] at hwhole
    refine ⟨by simp [dotted], nofun, fun _ h => hdotless ?_⟩
    rw [hwhole] at h
    exact List.mem_reverse.mp h
  · next c stem hstem hd =>
    rw [hd] at hwhole hdot
    obtain rfl : c = '.' := by simpa using hdot
    refine ⟨?_, ?_, nofun⟩
    · apply String.toList_injective
      simp [dotted, hwhole]
    · intro extension hextension
      obtain rfl := Option.some.inj hextension
      refine ⟨by simpa using hdotless, fun hempty => hstem ?_⟩
      simpa using congrArg String.toList hempty

end Path
end Logbook
