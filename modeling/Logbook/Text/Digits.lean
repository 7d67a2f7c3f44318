/-! Decimal numbers in text: plain, and padded with zeros on the left to a least width. -/

namespace Logbook
namespace Text

/-- The decimal digits of `n`, without leading zeros. -/
def digits (n : Nat) : List Char :=
  Nat.toDigits 10 n

/-- The decimal digits of `n`, with zeros in front up to `width` characters. -/
def padded (width n : Nat) : List Char :=
  List.replicate (width - (digits n).length) '0' ++ digits n

/-- Integer `z` with zeros after its sign up to `width` characters, the sign among them; only a negative
    integer has a sign. -/
def paddedInt (width : Nat) (z : Int) : List Char :=
  if z < 0 then '-' :: padded (width - 1) z.natAbs else padded width z.natAbs

/-! ### Lemmas -/

theorem width_le_length_padded (width n : Nat) : width ≤ (padded width n).length := by
  simp [padded]
  omega

end Text
end Logbook
