/-! # Numbers in base sixteen

Bytes, words and addresses are printed in base sixteen, in upper case, with leading zeros up to a
width of digits; a number that needs more digits gets them. -/

namespace DmaController

namespace Hex

/-- The digits of a number, at least `width` of them and at least one. -/
def digits (width n : Nat) : List Char :=
  ((Nat.toDigits 16 n).map Char.toUpper).leftpad width '0'

/-- The number as text of at least `width` digits. -/
def text (width n : Nat) : String := String.ofList (digits width n)

/-- A byte as two digits. -/
def byte (v : UInt8) : String := text 2 v.toNat

/-- A word as four digits. -/
def word (v : UInt16) : String := text 4 v.toNat

end Hex

end DmaController
