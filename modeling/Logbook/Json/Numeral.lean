/-! Numbers as they are written in JSON, and which of them are too large. A number is turned into a double in
    three roundings: its leading digits become an integer of 64 bits, which is rounded, the power of ten is
    rounded, and so is their product. A number is too large when the last of these has no double; close to the
    limit this can differ from the verdict on the number itself. -/

namespace Logbook
namespace Json

/-! ### Rounding -/

/-- The distance between the doubles around `n`, for numbers that are wide enough to have one above one. -/
def gap (n : Nat) : Nat :=
  Nat.pow 2 (n.log2 - 52)

/-- The double nearest to `n`, were there no largest one; halfway between two it is the one whose last bit is
    zero. -/
def nearest (n : Nat) : Nat :=
  let below := n / gap n
  let rest := n % gap n
  if gap n < 2 * rest ∨ (2 * rest = gap n ∧ below % 2 = 1) then (below + 1) * gap n else below * gap n

/-- No double is as large as this. -/
def doubleLimit : Nat :=
  Nat.pow 2 1024

/-! ### Digits -/

def digitValue (d : Char) : Nat :=
  d.toNat - '0'.toNat

def ofDigits (ds : List Char) : Nat :=
  ds.foldl (fun n d => 10 * n + digitValue d) 0

/-- No number of 64 bits is as large as this. -/
def wordLimit : Nat :=
  18446744073709551616

/-- Number `n` with digits written after it for as long as it keeps to 64 bits, and the digits that are left
    over, from the first that did not fit. -/
def fill (n : Nat) : List Char → Nat × List Char
  | [] => (n, [])
  | d :: ds => if 10 * n + digitValue d < wordLimit then fill (10 * n + digitValue d) ds else (n, d :: ds)

/-! ### Numbers -/

/-- A number as it is written: the digits before and after the point, and the power of ten. -/
structure Numeral where
  whole : List Char
  fraction : List Char
  exponent : Int

namespace Numeral

/-- The leading digits as an integer, and the power of ten that goes with it. A digit before the point that is
    left over counts in the power only, one after it not at all; where one before the point did not fit, a smaller
    one after it still may. -/
def scaled (x : Numeral) : Nat × Int :=
  let (n, left) := fill 0 x.whole
  let (m, rest) := fill n x.fraction
  (m, x.exponent + left.length - (x.fraction.length - rest.length : Nat))

/-- The number is small enough for a double. A power above the greatest that is a double itself is too large,
    whatever the digits are. -/
def fits (x : Numeral) : Bool :=
  let (n, power) := x.scaled
  if n = 0 || power < 0 then true
  else if 308 < power then false
  else nearest (nearest n * nearest (Nat.pow 10 power.toNat)) < doubleLimit

end Numeral

end Json
end Logbook
