import Mathlib.Data.List.Basic
import Logbook.Text.Letter

/-! Matching a text by its upper-case form. Main statement: the upper-case form of a text is that of a name in ASCII
    without the letter pairs of ligatures exactly if the text has the letters of that name, up to case, once its dotless
    i, long s and double f are spelled with the letters that they look like. -/

namespace Logbook
namespace Text

/-- The small letters in ASCII for a character that looks like them; any other character stands for itself. -/
def respell : Char → List Char
  | 'ı' => ['i']
  | 'ſ' => ['s']
  | 'ﬀ' => ['f', 'f']
  | c => [c]

/-- The characters that `respell` changes. -/
def lookalikes : List Char :=
  ['ı', 'ſ', 'ﬀ']

/-- The characters besides them whose upper-case form is in ASCII while they are not. -/
def ligatures : List Char :=
  ['ß', 'ﬁ', 'ﬂ', 'ﬃ', 'ﬄ', 'ﬅ', 'ﬆ']

def respelled (s : String) : String :=
  String.ofList (s.toList.flatMap respell)

/-! ### Single characters -/

theorem toNat_toUpper (c : Char) :
    c.toUpper.toNat = if 97 ≤ c.toNat ∧ c.toNat ≤ 122 then c.toNat - 32 else c.toNat := by
  unfold Char.toUpper
  split
  · next h =>
    have hsmall : 97 ≤ c.toNat ∧ c.toNat ≤ 122 := h
    rw [if_pos hsmall]
    simp only [Char.toNat_mk, UInt32.toNat_add, Char.toNat_val, Char.reduceVal, UInt32.reduceSub, UInt32.reduceToNat]
    omega
  · next h => exact (if_neg h).symm

theorem toNat_toLower (c : Char) :
    c.toLower.toNat = if 65 ≤ c.toNat ∧ c.toNat ≤ 90 then c.toNat + 32 else c.toNat := by
  unfold Char.toLower
  split
  · next h =>
    have hcapital : 65 ≤ c.toNat ∧ c.toNat ≤ 90 := h
    rw [if_pos hcapital]
    simp only [Char.toNat_mk, UInt32.toNat_add, Char.toNat_val, Char.reduceVal, UInt32.reduceSub, UInt32.reduceToNat]
    omega
  · next h => exact (if_neg h).symm

theorem toUpper_eq_toUpper_iff {c d : Char} : c.toUpper = d.toUpper ↔ c.toLower = d.toLower := by
  rw [← Char.toNat_inj, ← Char.toNat_inj, toNat_toUpper, toNat_toUpper, toNat_toLower, toNat_toLower]
  grind

theorem respell_of_not_mem {c : Char} (h : c ∉ lookalikes) : respell c = [c] := by
  unfold respell
  split
  · exact absurd (by decide) h
  · exact absurd (by decide) h
  · exact absurd (by decide) h
  · rfl

theorem capital_eq {c : Char} (h : c ∉ ligatures) : capital c = (respell c).map Char.toUpper := by
  by_cases hc : c ∈ lookalikes
  · simp only [lookalikes, List.mem_cons, List.not_mem_nil, or_false] at hc
    rcases hc with rfl | rfl | rfl <;> rfl
  · rw [respell_of_not_mem hc]
    unfold capital
    split <;> first | rfl | exact absurd (by decide) h | exact absurd (by decide) hc

/-! ### Texts -/

theorem map_toUpper_eq_iff {s t : List Char} :
    s.map Char.toUpper = t.map Char.toUpper ↔ s.map Char.toLower = t.map Char.toLower := by
  induction s generalizing t with
  | nil => simp [eq_comm]
  | cons c s ih =>
    cases t with
    | nil => simp
    | cons d t => simp only [List.map_cons, List.cons.injEq, toUpper_eq_toUpper_iff, ih]

theorem capitals_eq {s : List Char} (h : ∀ c ∈ s, c ∉ ligatures) :
    capitals s = (s.flatMap respell).map Char.toUpper := by
  rw [capitals, List.map_flatMap]
  exact List.flatMap_congr fun c hc => capital_eq (h c hc)

/-- The name has none of these characters, nor has its upper-case form that of a ligature as a part. -/
structure Plain (name : String) : Prop where
  ascii : ∀ c ∈ lookalikes ++ ligatures, c ∉ name.toList.map Char.toLower
  apart : ∀ c ∈ ligatures, ¬capital c <:+: name.toList.map Char.toUpper

theorem capitals_eq_iff {name : String} (hname : Plain name) (s : String) :
    capitals s.toList = name.toList.map Char.toUpper ↔ sameLetters name (respelled s) = true := by
  have hiff (h : ∀ c ∈ s.toList, c ∉ ligatures) :
      capitals s.toList = name.toList.map Char.toUpper ↔ sameLetters name (respelled s) = true := by
    rw [capitals_eq h, map_toUpper_eq_iff, sameLetters_iff, respelled, String.toList_ofList, eq_comm]
  -- Either side says that the text has no ligatures, and then both say the same.
  constructor
  · intro h
    refine (hiff fun c hc hligature => hname.apart c hligature ?_).mp h
    rw [← h]
    exact List.infix_flatMap_of_mem hc capital
  · intro h
    refine (hiff fun c hc hligature => hname.ascii c (List.mem_append_right _ hligature) ?_).mpr h
    have hother : ∀ c ∈ ligatures, c ∉ lookalikes ∧ c.toLower = c := by simp [ligatures, lookalikes]
    obtain ⟨hnot, hsmall⟩ := hother c hligature
    have hkept : c ∈ s.toList.flatMap respell := by
      refine List.mem_flatMap.mpr ⟨c, hc, ?_⟩
      rw [respell_of_not_mem hnot]
      exact List.mem_singleton_self c
    rw [sameLetters_iff, respelled, String.toList_ofList] at h
    rw [h, ← hsmall]
    exact List.mem_map_of_mem hkept

/-- A text without such characters is spelled as it is. -/
theorem respelled_eq_self {s : String} (h : ∀ c ∈ s.toList, c ∉ lookalikes) : respelled s = s := by
  have hsame : s.toList.flatMap respell = s.toList.flatMap fun c => [c] :=
    List.flatMap_congr fun c hc => respell_of_not_mem (h c hc)
  rw [respelled, hsame, List.flatMap_singleton', String.ofList_toList]

theorem sameLetters_iff_respelled {name : String} (hname : Plain name) (s : String) :
    sameLetters name s = true ↔ sameLetters name (respelled s) = true ∧ ∀ c ∈ s.toList, c ∉ lookalikes := by
  constructor
  · intro h
    have hnone : ∀ c ∈ s.toList, c ∉ lookalikes := by
      intro c hc hlookalike
      refine hname.ascii c (List.mem_append_left _ hlookalike) ?_
      have hsmall : ∀ c ∈ lookalikes, c.toLower = c := by simp [lookalikes]
      rw [sameLetters_iff.mp h, ← hsmall c hlookalike]
      exact List.mem_map_of_mem hc
    exact ⟨(respelled_eq_self hnone).symm ▸ h, hnone⟩
  · rintro ⟨h, hnone⟩
    rwa [respelled_eq_self hnone] at h

end Text
end Logbook
