import Mathlib.Data.List.DropRight
import Logbook.Proofs.Text.Columns
import Logbook.Proofs.Time.Days
import Logbook.Time.Format

/-! The widths of the parts of a format. A part is shown with differences, powers of ten, places in tables and cuts of
    names, and each of these exists only within bounds that nothing checks while an instant is shown: the widths that a
    specification can ask for have to keep it within them. Main statement: every specification can be shown of every
    instant, and its fractions show the first of the nine digits of a fraction. -/

namespace Logbook

/-! ### Operations with bounds -/

/-- What an operation asks for and does not find. -/
inductive OutOfRange where
  /-- A difference below zero. -/
  | difference
  /-- A power that does not fit 64 bits. -/
  | power
  /-- A quotient by zero. -/
  | quotient
  /-- A place behind the end of a table. -/
  | entry
  /-- A cut behind the end of a text, or inside of a character. -/
  | cut
deriving DecidableEq, Repr

namespace Guarded

def sub (m n : Nat) : Except OutOfRange Nat :=
  if n ≤ m then .ok (m - n) else .error .difference

def pow (base exponent : Nat) : Except OutOfRange Nat :=
  if Nat.pow base exponent < Nat.pow 2 64 then .ok (Nat.pow base exponent) else .error .power

def div (m n : Nat) : Except OutOfRange Nat :=
  if n = 0 then .error .quotient else .ok (m / n)

def entry (table : List String) (place : Nat) : Except OutOfRange String :=
  match table[place]? with
  | some name => .ok name
  | none => .error .entry

/-- The first `bytes` bytes of a text. -/
def front : Nat → List Char → Except OutOfRange (List Char)
  | 0, _ => .ok []
  | _ + 1, [] => .error .cut
  | bytes + 1, c :: cs =>
    if c.utf8Size ≤ bytes + 1 then (front (bytes + 1 - c.utf8Size) cs).map (c :: ·) else .error .cut

theorem sub_eq_ok {m n : Nat} (h : n ≤ m) : sub m n = .ok (m - n) :=
  if_pos h

theorem sub_eq_error {m n : Nat} (h : m < n) : sub m n = .error .difference :=
  if_neg (Nat.not_le.mpr h)

/-- The powers of ten up to the nineteenth fit 64 bits. -/
theorem pow_ten {exponent : Nat} (h : exponent ≤ 19) : pow 10 exponent = .ok (Nat.pow 10 exponent) := by
  have hle : Nat.pow 10 exponent ≤ Nat.pow 10 19 := Nat.pow_le_pow_right (by decide) h
  exact if_pos (hle.trans_lt (by decide))

theorem div_eq_ok (m : Nat) {n : Nat} (h : 0 < n) : div m n = .ok (m / n) :=
  if_neg h.ne'

theorem entry_map_range' {name : Nat → String} {start count place : Nat} (h : place < count) :
    entry ((List.range' start count).map name) place = .ok (name (start + place)) := by
  simp [entry, h]

end Guarded

/-! ### Showing a part within bounds -/

namespace DatePart
open Text

def monthNames : List String :=
  (List.range' 1 12).map monthName

def weekdayNames : List String :=
  (List.range' 0 7).map weekdayName

/-- A number in one or two digits, else its name: three letters of it, or all. -/
def named (width n : Nat) (name : Except OutOfRange String) : Except OutOfRange (List Char) :=
  if width = 1 ∨ width = 2 then .ok (short width n)
  else if width = 3 then name.bind fun name => Guarded.front 3 name.toList
  else name.map String.toList

/-- What a part shows, if all is there that it asks for. The other parts only write numbers and texts. -/
def guarded (t : Instant) : DatePart → Except OutOfRange (List Char)
  | .month width => named width t.date.month ((Guarded.sub t.date.month 1).bind (Guarded.entry monthNames))
  | .day width => named width t.date.day (Guarded.entry weekdayNames t.weekday)
  | .fraction digits trim => do
    let unit ← Guarded.pow 10 (← Guarded.sub 9 digits)
    let text := padded digits (← Guarded.div (min t.nanos 999999999) unit)
    return if trim then trimZeros text else text
  | .amPm width =>
    let mark := if t.hour < 12 then ['A', 'M'] else ['P', 'M']
    if width = 1 then Guarded.front 1 mark else .ok mark
  | part => .ok (render t part)

/-- The width of a part is one that its letter has a form for. -/
def Fits : DatePart → Prop
  | .year width => 1 ≤ width ∧ width ≤ 5
  | .month width | .day width => 1 ≤ width ∧ width ≤ 4
  | .hour24 width | .hour12 width | .minute width | .second width | .amPm width => 1 ≤ width ∧ width ≤ 2
  | .fraction digits _ => 1 ≤ digits ∧ digits ≤ 7
  | .offset width => 1 ≤ width ∧ width ≤ 3
  | .literal _ | .zone | .era => True

/-! ### The widths of a specification -/

theorem fits_of_ofRun? {c : Char} {n : Nat} {part : DatePart} (h : ofRun? c (n + 1) = some part) : part.Fits := by
  unfold ofRun? at h
  split at h <;> cases h <;> simp only [Fits] <;> omega

theorem fits_of_mem_pieces (pattern : List Char) : ∀ part ∈ pieces pattern, part.Fits := by
  -- Only a run of letters makes a part that has a width.
  fun_induction pieces pattern with
  | case1 => simp
  | case2 c rest hquote hle ih => exact List.forall_mem_cons.mpr ⟨trivial, ih⟩
  | case3 => simp
  | case4 d rest hquote ih => exact List.forall_mem_cons.mpr ⟨trivial, ih⟩
  | case5 rest hquote hescape ih => exact ih
  | case6 rest hquote hescape hpercent ih => exact List.forall_mem_cons.mpr ⟨trivial, ih⟩
  | case7 c rest hquote hescape hpercent hzone part hpart hle ih =>
    exact List.forall_mem_cons.mpr ⟨fits_of_ofRun? hpart, ih⟩
  | case8 c rest hquote hescape hpercent hzone hnone ih => exact List.forall_mem_cons.mpr ⟨trivial, ih⟩

/-- Putting literals together makes no part but literals. -/
theorem fits_of_mem_merge {parts : List DatePart} (h : ∀ part ∈ parts, part.Fits) :
    ∀ part ∈ merge parts, part.Fits := by
  fun_induction merge parts with
  | case1 => exact h
  | case2 text rest more tail hmore ih =>
    have hrest := ih (List.forall_mem_cons.mp h).2
    rw [hmore] at hrest
    exact List.forall_mem_cons.mpr ⟨trivial, (List.forall_mem_cons.mp hrest).2⟩
  | case3 text rest hmore ih => exact List.forall_mem_cons.mpr ⟨trivial, ih (List.forall_mem_cons.mp h).2⟩
  | case4 part rest hpart ih =>
    obtain ⟨hpart, hrest⟩ := List.forall_mem_cons.mp h
    exact List.forall_mem_cons.mpr ⟨hpart, ih hrest⟩

theorem fits_of_mem_parts {spec : String} {part : DatePart} (h : part ∈ (DateFormat.ofSpec spec).parts) : part.Fits :=
  fits_of_mem_merge (fits_of_mem_pieces _) part h

/-! ### Within the widths all is there -/

theorem front_monthName (n : Nat) : Guarded.front 3 (monthName n).toList = .ok ((monthName n).toList.take 3) := by
  unfold monthName
  split <;> decide

theorem front_weekdayName (n : Nat) :
    Guarded.front 3 (weekdayName n).toList = .ok ((weekdayName n).toList.take 3) := by
  unfold weekdayName
  split <;> decide

theorem named_eq_ok {width n : Nat} {name : String} (hwidth : 1 ≤ width)
    (hfront : Guarded.front 3 name.toList = .ok (name.toList.take 3)) : named width n (.ok name) =
      .ok (if width ≤ 2 then short width n else if width = 3 then name.toList.take 3 else name.toList) := by
  unfold named
  by_cases hnumber : width ≤ 2
  · rw [if_pos hnumber, if_pos (by omega)]
  · rw [if_neg hnumber, if_neg (by omega)]
    split
    · exact hfront
    · rfl

/-- A fraction must not be wider than the nine digits there are. -/
theorem guarded_fraction (t : Instant) (digits : Nat) (trim : Bool) : guarded t (.fraction digits trim) =
    if digits ≤ 9 then .ok (render t (.fraction digits trim)) else .error .difference := by
  by_cases h : digits ≤ 9
  · have hpos : 0 < Nat.pow 10 (9 - digits) := Nat.pow_pos (by decide)
    have hpow := Guarded.pow_ten (show 9 - digits ≤ 19 by omega)
    simp only [guarded, Guarded.sub_eq_ok h, hpow, Guarded.div_eq_ok _ hpos, bind, Except.bind, pure, Except.pure]
    rw [if_pos h]
    rfl
  · rw [if_neg h, guarded, Guarded.sub_eq_error (Nat.lt_of_not_le h)]
    rfl

/-- A part with a width that fits asks for nothing that is not there. -/
theorem guarded_of_fits (t : Instant) {part : DatePart} (h : part.Fits) : guarded t part = .ok (render t part) := by
  cases part with
  | month width =>
    have hpos : 1 ≤ t.date.month := Date.one_le_month t.dayNumber
    have hle : t.date.month ≤ 12 := (Date.ofDayNumber_bounds t.dayNumber).1
    -- Months are counted from one, and the places of the table from zero.
    have hplace : 1 + (t.date.month - 1) = t.date.month := by omega
    have hentry : Guarded.entry monthNames (t.date.month - 1) = .ok (monthName t.date.month) := by
      rw [monthNames, Guarded.entry_map_range' (by omega), hplace]
    rw [guarded, Guarded.sub_eq_ok hpos, Except.bind, hentry, named_eq_ok h.1 (front_monthName _), render]
  | day width =>
    have hplace : t.weekday < 7 := Date.weekday_lt t.dayNumber
    have hentry : Guarded.entry weekdayNames t.weekday = .ok (weekdayName t.weekday) := by
      rw [weekdayNames, Guarded.entry_map_range' hplace, Nat.zero_add]
    rw [guarded, hentry, named_eq_ok h.1 (front_weekdayName _), render]
  | fraction digits trim =>
    have hnine : digits ≤ 9 := h.2.trans (by decide)
    rw [guarded_fraction, if_pos hnine]
  | amPm width =>
    obtain rfl | rfl : width = 1 ∨ width = 2 := by
      have hpos := h.1
      have hle := h.2
      omega
    · show Guarded.front 1 (if t.hour < 12 then ['A', 'M'] else ['P', 'M']) = .ok (List.take 1 _)
      split <;> rfl
    · show Except.ok (if t.hour < 12 then ['A', 'M'] else ['P', 'M']) = .ok (List.take 2 _)
      split <;> rfl
  | _ => rfl

/-! ### Fractions -/

/-- The text `cut` is `text` without the zeros at its end. -/
def CutOfZeros (text cut : List Char) : Prop :=
  cut.getLast? ≠ some '0' ∧ ∃ zeros, text = cut ++ List.replicate zeros '0'

theorem cutOfZeros_trimZeros (text : List Char) : CutOfZeros text (trimZeros text) := by
  have hcut : trimZeros text = text.rdropWhile (· == '0') := rfl
  constructor
  · intro hlast
    obtain ⟨front, hfront⟩ := List.getLast?_eq_some_iff.mp hlast
    have hne : text.rdropWhile (· == '0') ≠ [] := by simp [← hcut, hfront]
    have hnot := List.rdropWhile_last_not _ _ hne
    simp [← hcut, hfront] at hnot
  · have hzeros : text.rtakeWhile (· == '0') = List.replicate (text.rtakeWhile (· == '0')).length '0' :=
      List.eq_replicate_iff.mpr ⟨rfl, fun c hc => by simpa using List.mem_rtakeWhile_imp hc⟩
    refine ⟨(text.rtakeWhile (· == '0')).length, ?_⟩
    rw [hcut, ← hzeros, List.rdropWhile_append_rtakeWhile]

/-- Up to nine digits of a fraction are the first of the nine. -/
theorem fractionDigits_eq_take {digits : Nat} (hpos : 1 ≤ digits) (hle : digits ≤ 9) (nanos : Nat) :
    fractionDigits digits nanos = (padded 9 (min nanos 999999999)).take digits := by
  have hnine : digits + (9 - digits) = 9 := by omega
  have hbound : min nanos 999999999 < Nat.pow 10 (digits + (9 - digits)) := by
    rw [hnine]
    show _ < 1000000000
    omega
  have htake := take_padded hpos (9 - digits) hbound
  rw [hnine] at htake
  rw [fractionDigits, htake]

end DatePart

namespace DateFormat
open DatePart

/-- What a format shows, if all is there that its parts ask for. -/
def guarded (f : DateFormat) (t : Instant) : Except OutOfRange String := do
  let texts ← f.parts.mapM (DatePart.guarded (if f.universal then t.universal else t))
  return String.ofList texts.flatten

theorem mapM_guarded {t : Instant} {parts : List DatePart} (h : ∀ part ∈ parts, part.Fits) :
    parts.mapM (DatePart.guarded t) = .ok (parts.map (render t)) := by
  induction parts with
  | nil => rfl
  | cons part parts ih =>
    obtain ⟨hpart, hparts⟩ := List.forall_mem_cons.mp h
    rw [List.mapM_cons, guarded_of_fits t hpart, ih hparts]
    rfl

/-- Whatever its specification, a format has only parts of fitting widths, and so everything is there that they ask
    for, of every instant. A fraction shows as many of the nine digits as it is wide, or those without the zeros at
    their end; in a leap second all nine digits are nines. -/
theorem guarded_ofSpec (spec : String) (t : Instant) :
    (∀ part ∈ (ofSpec spec).parts, part.Fits ∧ part.guarded t = .ok (part.render t)) ∧
      (ofSpec spec).guarded t = .ok ((ofSpec spec).format t) ∧
      ∀ digits, 1 ≤ digits → digits ≤ 9 →
        let shown := (Text.padded 9 (min t.nanos 999999999)).take digits
        render t (.fraction digits false) = shown ∧ CutOfZeros shown (render t (.fraction digits true)) := by
  refine ⟨fun part hpart => ?_, ?_, fun digits hpos hle => ?_⟩
  · have hfits := fits_of_mem_parts hpart
    exact ⟨hfits, guarded_of_fits t hfits⟩
  · rw [guarded, mapM_guarded fun part hpart => fits_of_mem_parts hpart]
    show Except.ok _ = _
    rw [format, List.flatMap_def]
  · rw [← fractionDigits_eq_take hpos hle]
    exact ⟨rfl, cutOfZeros_trimZeros _⟩

/-- Runs of ten letters, and a fraction of which four digits end in zeros. -/
theorem guarded_ofSpec_long :
    let t : Instant := ⟨1704101415, 120000300, 3600⟩
    let f := ofSpec "MMMMMMMMMM FFFFFFFFFF"
    DatePart.fraction 7 true ∈ f.parts ∧ (DatePart.fraction 7 true).Fits ∧ f.guarded t = .ok "January 1200003" ∧
      (1 ≤ 4 ∧ 4 ≤ 9) ∧ render t (.fraction 4 false) = ['1', '2', '0', '0'] ∧
      CutOfZeros ['1', '2', '0', '0'] (render t (.fraction 4 true)) := by
  intro t f
  have hmem : DatePart.fraction 7 true ∈ f.parts := by decide +kernel
  have hformat : f.format t = "January 1200003" := by decide +kernel
  have hshown : (Text.padded 9 (min t.nanos 999999999)).take 4 = ['1', '2', '0', '0'] := by decide +kernel
  obtain ⟨hparts, hguarded, hdigits⟩ := guarded_ofSpec "MMMMMMMMMM FFFFFFFFFF" t
  obtain ⟨hplain, hcut⟩ := hdigits 4 (by decide) (by decide)
  rw [hshown] at hplain hcut
  exact ⟨hmem, (hparts _ hmem).1, hguarded.trans (by rw [hformat]), by decide, hplain, hcut⟩

end DateFormat
end Logbook
