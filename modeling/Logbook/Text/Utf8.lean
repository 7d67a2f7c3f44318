/-! Text in UTF-8, read from bytes that need not be well formed. What is no character is replaced: each beginning
    of a character that breaks off, and each byte that begins none, becomes one replacement character, and reading
    goes on at the byte that did not fit. -/

namespace Logbook
namespace Text
namespace Utf8

/-! ### Characters by their bytes -/

/-- The character that stands for bytes that are none. -/
def replacement : Char := '\ufffd'

/-- The beginning of a character: its number as far as the bytes read give it, and the range in which each byte
    that is to come must lie. -/
structure Begun where
  number : Nat
  owed : List (Nat × Nat)
deriving DecidableEq, Repr

/-- The range of a byte that continues a character. -/
def continuing : Nat × Nat := (0x80, 0xbf)

/-- What a first byte begins, if it begins a character at all. The range of the second byte leaves out the numbers
    that have a shorter form, the surrogates, and the numbers above that of the last character. -/
def begun? (b : UInt8) : Option Begun :=
  let n := b.toNat
  if n < 0x80 then some ⟨n, []⟩
  else if n < 0xc2 then none
  else if n < 0xe0 then some ⟨n - 0xc0, [continuing]⟩
  else if n = 0xe0 then some ⟨0, [(0xa0, 0xbf), continuing]⟩
  else if n = 0xed then some ⟨0xd, [(0x80, 0x9f), continuing]⟩
  else if n < 0xf0 then some ⟨n - 0xe0, [continuing, continuing]⟩
  else if n = 0xf0 then some ⟨0, [(0x90, 0xbf), continuing, continuing]⟩
  else if n < 0xf4 then some ⟨n - 0xf0, [continuing, continuing, continuing]⟩
  else if n = 0xf4 then some ⟨4, [(0x80, 0x8f), continuing, continuing]⟩
  else none

/-! ### Reading -/

/-- What is read of a beginning, and what of it stays open: one that owes no byte is a character, and where nothing
    begins a replacement is read. -/
def settle : Option Begun → List Char × Option Begun
  | none => ([replacement], none)
  | some ⟨number, []⟩ => ([Char.ofNat number], none)
  | some begun => ([], some begun)

/-- What byte `b` adds after a beginning, or between two characters. -/
def step : Option Begun → UInt8 → List Char × Option Begun
  | some ⟨number, (low, high) :: owed⟩, b =>
    if low ≤ b.toNat ∧ b.toNat ≤ high then settle (some ⟨number * 64 + (b.toNat - 0x80), owed⟩)
    else (replacement :: (settle (begun? b)).1, (settle (begun? b)).2)
  | _, b => settle (begun? b)

/-- The characters of bytes that come after a beginning, or between two characters. -/
def decodeFrom : Option Begun → List UInt8 → List Char
  | begun, [] => if begun.isSome then [replacement] else []
  | begun, b :: rest => (step begun b).1 ++ decodeFrom (step begun b).2 rest

def decode (bytes : List UInt8) : List Char :=
  decodeFrom none bytes

end Utf8
end Text
end Logbook
