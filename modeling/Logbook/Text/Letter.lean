/-! Letter case. Names are compared up to ASCII case; a name may also be matched by its upper-case form, which
    some letters outside ASCII reach too: a dotless i is written with a capital I, a ligature with the capitals
    of its letters. -/

namespace Logbook
namespace Text

/-- The texts agree up to the case of ASCII letters. -/
def sameLetters (s t : String) : Bool :=
  s.toList.map Char.toLower == t.toList.map Char.toLower

/-- The upper-case form of a character, where that form is written in ASCII. Every other character stands for
    itself: no text that holds one has an upper-case form in ASCII. -/
def capital : Char → List Char
  | 'ß' => ['S', 'S']
  | 'ı' => ['I']
  | 'ſ' => ['S']
  | 'ﬀ' => ['F', 'F']
  | 'ﬁ' => ['F', 'I']
  | 'ﬂ' => ['F', 'L']
  | 'ﬃ' => ['F', 'F', 'I']
  | 'ﬄ' => ['F', 'F', 'L']
  | 'ﬅ' => ['S', 'T']
  | 'ﬆ' => ['S', 'T']
  | c => [c.toUpper]

/-- The upper-case form of a text, as far as `capital` gives it. -/
def capitals (s : List Char) : List Char :=
  s.flatMap capital

/-! ### Lemmas -/

theorem sameLetters_iff {s t : String} :
    sameLetters s t = true ↔ s.toList.map Char.toLower = t.toList.map Char.toLower := by
  simp [sameLetters]

@[simp] theorem sameLetters_self (s : String) : sameLetters s s = true := by
  simp [sameLetters]

theorem sameLetters_comm {s t : String} (h : sameLetters s t = true) : sameLetters t s = true := by
  rw [sameLetters_iff] at *
  exact h.symm

theorem sameLetters_trans {s t u : String} (h : sameLetters s t = true) (h' : sameLetters t u = true) :
    sameLetters s u = true := by
  rw [sameLetters_iff] at *
  exact h.trans h'

end Text
end Logbook
