import DmaController.Channel.Unit

/-! # The control byte of a channel

The first register of a channel, `$43x0`:

| bits | meaning                                                         |
|------|-----------------------------------------------------------------|
| 0-2  | unit mode                                                       |
| 3    | the A-bus address stays fixed                                   |
| 4    | the A-bus address counts down (unless it is fixed)              |
| 5    | unused, but kept                                                |
| 6    | the table of line transfers is indirect                         |
| 7    | the transfer runs in reverse, from the B-bus to the A-bus       |

Reading a control word back as a byte and the other way round loses nothing
(`Control.ofByte_toByte`, `Control.toByte_ofByte`). -/

namespace DmaController

/-- The movement of an A-bus address from one byte of a transfer to the next. -/
inductive AddressStep where
  | hold
  | up
  | down
deriving DecidableEq, Repr

namespace AddressStep

/-- The movement as a number. -/
def toInt : AddressStep → Int
  | hold => 0
  | up => 1
  | down => -1

/-- The movement as an offset to be added modulo 2^16. -/
def word : AddressStep → UInt16
  | hold => 0
  | up => 1
  | down => 0xFFFF

/-- One step more is one offset more. -/
theorem word_succ (a : AddressStep) (k : Nat) :
    UInt16.ofNat (k + 1) * a.word = UInt16.ofNat k * a.word + a.word := by
  rw [UInt16.ofNat_add, UInt16.add_mul]
  exact congrArg _ (UInt16.one_mul a.word)

end AddressStep

/-- A control byte taken apart. -/
structure Control where
  mode : UnitMode
  fixed : Bool
  decrement : Bool
  unused : Bool
  indirect : Bool
  reverse : Bool
deriving DecidableEq, Repr

namespace Control

/-- Takes a control byte apart. -/
def ofByte (v : UInt8) : Control where
  mode := UnitMode.ofByte v
  fixed := v &&& 0x08 != 0
  decrement := v &&& 0x10 != 0
  unused := v &&& 0x20 != 0
  indirect := v &&& 0x40 != 0
  reverse := v &&& 0x80 != 0

/-- Puts a control byte together. -/
def toByte (c : Control) : UInt8 :=
  c.mode.number + (if c.fixed then 0x08 else 0) + (if c.decrement then 0x10 else 0) +
    (if c.unused then 0x20 else 0) + (if c.indirect then 0x40 else 0) +
    (if c.reverse then 0x80 else 0)

/-- The step of the A-bus address: a fixed address stays even if it is to count down. -/
def step (c : Control) : AddressStep :=
  if c.fixed then .hold else if c.decrement then .down else .up

/-- The step that the decrement bit alone asks for. -/
def direction (c : Control) : AddressStep := if c.decrement then .down else .up

theorem ofByte_toByte (c : Control) : ofByte c.toByte = c := by
  obtain ⟨m, f, d, u, i, r⟩ := c
  cases m <;> revert f d u i r <;> decide

theorem toByte_ofByte (v : UInt8) : (ofByte v).toByte = v := by
  have h : ∀ n : Fin 256, (ofByte (UInt8.ofNat n)).toByte = UInt8.ofNat n := by
    decide +kernel
  have := h ⟨v.toNat, v.toNat_lt⟩
  simpa using this

end Control

end DmaController
