/-! # Numerals

Reading whole numbers from text.  A decimal numeral is read from left to right into a bounded
range, and the first thing wrong with it is reported: nothing there at all, a character that is
no digit, or a value beyond the range.  A numeral in base sixteen may carry prefixes. -/

namespace DmaController

/-- What can be wrong with a decimal numeral. -/
inductive NumeralError where
  | empty
  | invalidDigit
  | tooLarge
  | tooSmall
deriving DecidableEq, Repr

/-- The wording of an error. -/
def NumeralError.message : NumeralError → String
  | empty => "cannot parse integer from empty string"
  | invalidDigit => "invalid digit found in string"
  | tooLarge => "number too large to fit in target type"
  | tooSmall => "number too small to fit in target type"

namespace Numeral

/-- The value of a decimal digit. -/
def decimalDigit? (c : Char) : Option Nat :=
  if '0' ≤ c ∧ c ≤ '9' then some (c.toNat - '0'.toNat) else none

/-- The value of a digit in base sixteen, in either letter case. -/
def hexDigit? (c : Char) : Option Nat :=
  if '0' ≤ c ∧ c ≤ '9' then some (c.toNat - '0'.toNat)
  else if 'a' ≤ c ∧ c ≤ 'f' then some (c.toNat - 'a'.toNat + 10)
  else if 'A' ≤ c ∧ c ≤ 'F' then some (c.toNat - 'A'.toNat + 10)
  else none

/-- Continues a decimal numeral whose digits so far are worth `value`, up to `limit`.  At each
character a wrong digit is noticed before the limit is. -/
def readDecimal (limit : Nat) (beyond : NumeralError) (value : Nat) :
    List Char → Except NumeralError Nat
  | [] => .ok value
  | c :: cs =>
    match decimalDigit? c with
    | none => .error .invalidDigit
    | some d =>
      if value * 10 + d ≤ limit then readDecimal limit beyond (value * 10 + d) cs
      else .error beyond

/-- Reads the digits after a sign; there must be some. -/
def readDigits (limit : Nat) (beyond : NumeralError) : List Char → Except NumeralError Nat
  | [] => .error .invalidDigit
  | cs => readDecimal limit beyond 0 cs

/-- Reads a number from 0 to 2^32 - 1, with an optional plus sign. -/
def readNat32 : List Char → Except NumeralError Nat
  | [] => .error .empty
  | '+' :: cs => readDigits 0xFFFFFFFF .tooLarge cs
  | cs => readDigits 0xFFFFFFFF .tooLarge cs

/-- Reads a number from -2^31 to 2^31 - 1, with an optional sign. -/
def readInt32 : List Char → Except NumeralError Int
  | [] => .error .empty
  | '-' :: cs => (readDigits 0x80000000 .tooSmall cs).map fun n => -(n : Int)
  | '+' :: cs => (readDigits 0x7FFFFFFF .tooLarge cs).map Int.ofNat
  | cs => (readDigits 0x7FFFFFFF .tooLarge cs).map Int.ofNat

/-- Continues a numeral in base sixteen whose digits so far are worth `value`. -/
def readHexDigits (value : Nat) : List Char → Option Nat
  | [] => some value
  | c :: cs => (hexDigit? c).bind fun d => readHexDigits (value * 16 + d) cs

/-- Drops every leading `0x`. -/
def dropZeroX : List Char → List Char
  | '0' :: 'x' :: cs => dropZeroX cs
  | cs => cs

/-- Drops the prefixes of a numeral in base sixteen: every leading `0x`, then every `$`. -/
def dropHexPrefixes (cs : List Char) : List Char := (dropZeroX cs).dropWhile (· == '$')

/-- The digits after an optional plus sign. -/
def dropPlus : List Char → List Char
  | '+' :: cs => cs
  | cs => cs

/-- Reads a number in base sixteen, after any prefixes and an optional plus sign.  There must
be a digit. -/
def readHex (cs : List Char) : Option Nat :=
  match dropPlus (dropHexPrefixes cs) with
  | [] => none
  | ds => readHexDigits 0 ds

end Numeral

end DmaController
