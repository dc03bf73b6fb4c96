/-! # Addresses, memory blocks and pointers

The controller sits between two buses.  The A-bus carries 24-bit addresses, written
`bank:offset`; the B-bus carries the addresses `$2100` to `$21FF` of byte-wide registers.

* **Addresses** (`Address`) are words; `Address.of` joins a bank and an offset and
  `Address.toNat_of` says which number that is.  Bits above the 24th are possible in an address
  handed in from outside, and stay.
* **Regions.**  Half of the banks, `$00`-`$3F` and `$80`-`$BF`, show the *system area* at their
  lower offsets (`isSystemBank`); work RAM is the banks `$7E` and `$7F`, and its first 8 KiB are
  seen again at the bottom of every system bank (`isWorkRam`).
* **Blocks** of 4 KiB are the grain in which memory is handed out for direct access: a
  `Pointer` obtained for an address is good inside the block of that address. -/

namespace DmaController

/-- An address of the A-bus: the bank in bits 16 to 23, the offset in the bank below. -/
abbrev Address := UInt32

namespace Address

/-- The address `bank:offset`. -/
def of (bank : UInt8) (offset : UInt16) : Address :=
  bank.toUInt32 * 0x10000 + offset.toUInt32

/-- The bank of an address. -/
def bank (a : Address) : UInt8 := (a / 0x10000).toUInt8

/-- The offset of an address in its bank. -/
def offset (a : Address) : UInt16 := a.toUInt16

/-- The cell of the 16 MiB address space an address stands for: its low 24 bits. -/
def cell (a : Address) : Nat := a.toNat % 0x1000000

theorem toNat_of (bank : UInt8) (offset : UInt16) :
    (of bank offset).toNat = bank.toNat * 0x10000 + offset.toNat := by
  have hb := bank.toNat_lt
  have ho := offset.toNat_lt
  simp only [of, UInt32.toNat_add, UInt32.toNat_mul, UInt8.toNat_toUInt32,
    UInt16.toNat_toUInt32, UInt32.reduceToNat]
  omega

theorem bank_of (bank : UInt8) (offset : UInt16) : Address.bank (of bank offset) = bank := by
  apply UInt8.toNat_inj.mp
  have hb := bank.toNat_lt
  have ho := offset.toNat_lt
  simp only [Address.bank, UInt32.toNat_toUInt8, UInt32.toNat_div, toNat_of,
    UInt32.reduceToNat]
  omega

theorem offset_of (bank : UInt8) (offset : UInt16) :
    Address.offset (of bank offset) = offset := by
  apply UInt16.toNat_inj.mp
  have ho := offset.toNat_lt
  simp only [Address.offset, UInt32.toNat_toUInt16, toNat_of]
  omega

end Address

/-- Banks `$00`-`$3F` and `$80`-`$BF`, which show the system area below offset `$8000`. -/
def isSystemBank (bank : UInt8) : Bool := decide (bank % 0x80 < 0x40)

/-- The two banks that are work RAM throughout. -/
def isWorkRamBank (bank : UInt8) : Bool := bank == 0x7E || bank == 0x7F

/-- Whether `bank:offset` lies in work RAM: in its own banks, or at the bottom of a system bank,
where its first 8 KiB are seen again. -/
def isWorkRam (bank : UInt8) (offset : UInt16) : Bool :=
  isWorkRamBank bank || (isSystemBank bank && decide (offset < 0x2000))

/-- Bytes in a block, the grain in which memory is handed out for direct access. -/
def blockSize : Nat := 0x1000

/-- The position of an offset in its block. -/
def positionInBlock (offset : UInt16) : Nat := offset.toNat % blockSize

theorem positionInBlock_lt (offset : UInt16) : positionInBlock offset < blockSize :=
  Nat.mod_lt _ (by decide)

/-- A place in memory that can be read directly.  The index means whatever the memory's owner
wants it to mean; it moves in 64-bit arithmetic, so that a pointer may be biased below zero. -/
structure Pointer where
  index : UInt64
deriving DecidableEq, Repr

/-- The pointer `n` bytes further on. -/
def Pointer.offset (p : Pointer) (n : UInt64) : Pointer := ⟨p.index + n⟩

theorem Pointer.offset_offset (p : Pointer) (m n : UInt64) :
    (p.offset m).offset n = p.offset (m + n) := by
  simp [Pointer.offset, UInt64.add_assoc]

end DmaController
