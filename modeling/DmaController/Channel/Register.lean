import DmaController.Channel.Basic

/-! # The registers of a channel

A channel shows twelve byte registers, at the positions `0` to `B` of its sixteen; position `F`
shows the last of them again, and `C` to `E` are holes.  Each register holds what was last
written to it (`Channel.get_put`), and a write to one leaves the others as they were
(`Channel.get_put_of_ne`). -/

namespace DmaController

/-- A byte register of a channel. -/
inductive Register where
  | control
  | port
  | addressLow
  | addressHigh
  | bank
  | countLow
  | countHigh
  | indirectBank
  | tableLow
  | tableHigh
  | lineCounter
  | scratch
deriving DecidableEq, Repr

/-- The register at a position, of which the low four bits count. -/
def Register.at? (position : Nat) : Option Register :=
  match position % 16 with
  | 0 => some control
  | 1 => some port
  | 2 => some addressLow
  | 3 => some addressHigh
  | 4 => some bank
  | 5 => some countLow
  | 6 => some countHigh
  | 7 => some indirectBank
  | 8 => some tableLow
  | 9 => some tableHigh
  | 10 => some lineCounter
  | 11 => some scratch
  | 15 => some scratch
  | _ => none

/-- The low byte of a word. -/
def lowByte (w : UInt16) : UInt8 := w.toUInt8

/-- The high byte of a word. -/
def highByte (w : UInt16) : UInt8 := (w / 0x100).toUInt8

/-- The word of two bytes. -/
def wordOf (low high : UInt8) : UInt16 := high.toUInt16 * 0x100 + low.toUInt16

theorem toNat_wordOf (low high : UInt8) :
    (wordOf low high).toNat = high.toNat * 0x100 + low.toNat := by
  have hl := low.toNat_lt
  have hh := high.toNat_lt
  simp only [wordOf, UInt16.toNat_add, UInt16.toNat_mul, UInt8.toNat_toUInt16,
    UInt16.reduceToNat]
  omega

@[simp] theorem lowByte_wordOf (low high : UInt8) : lowByte (wordOf low high) = low := by
  apply UInt8.toNat_inj.mp
  have hl := low.toNat_lt
  simp only [lowByte, UInt16.toNat_toUInt8, toNat_wordOf]
  omega

@[simp] theorem highByte_wordOf (low high : UInt8) : highByte (wordOf low high) = high := by
  apply UInt8.toNat_inj.mp
  have hl := low.toNat_lt
  have hh := high.toNat_lt
  simp only [highByte, UInt16.toNat_toUInt8, UInt16.toNat_div, toNat_wordOf,
    UInt16.reduceToNat]
  omega

@[simp] theorem wordOf_lowByte_highByte (w : UInt16) : wordOf (lowByte w) (highByte w) = w := by
  apply UInt16.toNat_inj.mp
  have hw := w.toNat_lt
  simp only [toNat_wordOf, lowByte, highByte, UInt16.toNat_toUInt8, UInt16.toNat_div,
    UInt16.reduceToNat]
  omega

namespace Channel

/-- The byte a register shows. -/
def get (c : Channel) : Register → UInt8
  | .control => c.control.toByte
  | .port => c.port
  | .addressLow => lowByte c.address
  | .addressHigh => highByte c.address
  | .bank => c.bank
  | .countLow => lowByte c.count
  | .countHigh => highByte c.count
  | .indirectBank => c.indirectBank
  | .tableLow => lowByte c.table
  | .tableHigh => highByte c.table
  | .lineCounter => c.lines % 0x80 + (if c.repeats then 0x80 else 0)
  | .scratch => c.scratch

/-- The channel after a byte is written to a register. -/
def put (c : Channel) (r : Register) (v : UInt8) : Channel :=
  match r with
  | .control => { c with control := .ofByte v }
  | .port => { c with port := v }
  | .addressLow => { c with address := wordOf v (highByte c.address) }
  | .addressHigh => { c with address := wordOf (lowByte c.address) v }
  | .bank => { c with bank := v }
  | .countLow => { c with count := wordOf v (highByte c.count) }
  | .countHigh => { c with count := wordOf (lowByte c.count) v }
  | .indirectBank => { c with indirectBank := v }
  | .tableLow => { c with table := wordOf v (highByte c.table) }
  | .tableHigh => { c with table := wordOf (lowByte c.table) v }
  | .lineCounter => { c with lines := v % 0x80, repeats := decide (0x80 ≤ v) }
  | .scratch => { c with scratch := v }

/-- The byte at a position; a hole shows nothing. -/
def readRegister (c : Channel) (position : Nat) : Option UInt8 :=
  (Register.at? position).map c.get

/-- A write to a position; a hole takes nothing. -/
def writeRegister (c : Channel) (position : Nat) (v : UInt8) : Channel :=
  match Register.at? position with
  | some r => c.put r v
  | none => c

theorem get_put (c : Channel) (r : Register) (v : UInt8) : (c.put r v).get r = v := by
  cases r
  case control => exact Control.toByte_ofByte v
  case lineCounter =>
    have h : ∀ n : Fin 256, (UInt8.ofNat n % 0x80 % 0x80 +
        (if decide ((0x80 : UInt8) ≤ UInt8.ofNat n) then 0x80 else 0)) = UInt8.ofNat n := by
      decide +kernel
    have := h ⟨v.toNat, v.toNat_lt⟩
    simpa [get, put] using this
  all_goals simp [get, put]

theorem get_put_of_ne (c : Channel) {r s : Register} (v : UInt8) (h : r ≠ s) :
    (c.put r v).get s = c.get s := by
  cases r <;> cases s <;> first | rfl | exact absurd rfl h | simp [get, put]

end Channel

end DmaController
