/-! Blank characters, and trimming them off a text. Blank is the Unicode property White_Space: a zero-width
    space or a byte order mark is not blank, a no-break space is. -/

namespace Logbook
namespace Text

/-! ### Blank characters -/

/-- The first and the last character of each run of blank characters, in order. -/
def blankRanges : List (Char × Char) :=
  [('\t', '\r'), (' ', ' '), ('\u0085', '\u0085'), ('\u00a0', '\u00a0'), ('\u1680', '\u1680'),
   ('\u2000', '\u200a'), ('\u2028', '\u2029'), ('\u202f', '\u202f'), ('\u205f', '\u205f'),
   ('\u3000', '\u3000')]

/-- Character `c` has the property White_Space. -/
def isBlank (c : Char) : Bool :=
  blankRanges.any fun r => r.1 ≤ c && c ≤ r.2

/-- Text `s` holds nothing but blank characters. -/
def isBlankText (s : String) : Bool :=
  s.toList.all isBlank

/-! ### Trimming -/

/-- The characters from the first that is not blank. -/
def trimStart (s : List Char) : List Char :=
  s.dropWhile isBlank

/-- The characters up to the last that is not blank. -/
def trimEnd (s : List Char) : List Char :=
  (s.reverse.dropWhile isBlank).reverse

/-- The characters from the first to the last that is not blank. -/
def trim (s : List Char) : List Char :=
  trimEnd (trimStart s)

/-- Text `s` without the blank characters around it. -/
def trimmed (s : String) : String :=
  String.ofList (trim s.toList)

/-! ### Lemmas -/

theorem trimEnd_append_blank {s t : List Char} (h : ∀ c ∈ t, isBlank c = true) :
    trimEnd (s ++ t) = trimEnd s := by
  unfold trimEnd
  rw [List.reverse_append, List.dropWhile_append_of_pos]
  intro c hc
  exact h c (List.mem_reverse.mp hc)

theorem toList_trimmed (s : String) : (trimmed s).toList = trim s.toList := by
  simp [trimmed]

end Text
end Logbook
