import DmaController.Proofs.Traced

/-! # Buses in front of a steady memory

A memory `M : Address → Option UInt8` stands still behind some buses if reading an address at which
`M` has a byte gives that byte, now and after whatever is done on the buses.  What may be done is
told by a condition `good` on their states which every access keeps; nothing is said of addresses
at which `M` has no byte.

A write may get in the way of the memory: it may go to one of its places, or to a register behind
which there is memory, such as the work RAM port.  Which registers and which places are safe to
write is told by a `Clearance`, and `good` has to be kept by writes to these only.

`SteadyBlocks` adds that block pointers, where they are given out at all, show `M` inside their
block and nowhere else, and `SteadyBytes` the same for byte pointers.  Which blocks are opened for
direct access is left to the buses. -/

namespace DmaController

variable {β : Type} [Buses β]

/-- The registers and the places that may be written without getting in the way of a memory. -/
structure Clearance where
  register : UInt16 → Prop
  place : Address → Prop

/-- Reading gives `M`, and sending bytes to the registers that are cleared keeps that so. -/
structure Steady (M : Address → Option UInt8) (cleared : UInt16 → Prop) (good : β → Prop) :
    Prop where
  read : ∀ {b : β} {a : Address} {v : UInt8}, good b → M a = some v → (Buses.read a b).1 = v
  good_read : ∀ {b : β} (a : Address), good b → good (Buses.read a b).2
  good_peek : ∀ {b : β} (p : Pointer), good b → good (Buses.peek p b).2
  good_writeRegister : ∀ {b : β} {a : UInt16} (v : UInt8),
    cleared a → good b → good (Buses.writeRegister a v b)
  good_setOpenBus : ∀ {b : β} (v : UInt8), good b → good (Buses.setOpenBus v b)
  good_setWorkRamTaken : ∀ {b : β} (taken : Bool),
    good b → good (Buses.setWorkRamTaken taken b)

/-- Whether two offsets of a bank lie in the same block. -/
def SameBlock (o o' : UInt16) : Prop := o.toNat / blockSize = o'.toNat / blockSize

instance (o o' : UInt16) : Decidable (SameBlock o o') :=
  inferInstanceAs (Decidable (o.toNat / blockSize = o'.toNat / blockSize))

/-- A block pointer shows `M` inside its block, and all registers may be written. -/
structure SteadyBlocks (M : Address → Option UInt8) (good : β → Prop) : Prop
    extends Steady M (fun _ => True) good where
  good_blockPointer : ∀ {b : β} (a : Address), good b → good (Buses.blockPointer a b).2
  peek_block : ∀ {b b' : β} {bank : UInt8} {o o' : UInt16} {p : Pointer} {v : UInt8},
    good b → (Buses.blockPointer (.of bank o) b).1 = some p →
    good b' → SameBlock o o' → M (.of bank o') = some v →
    (Buses.peek (p.offset o'.toUInt64) b').1 = v

/-- A byte pointer shows `M` from its byte on to the end of the block. -/
def Shows (M : Address → Option UInt8) (good : β → Prop) (p : Pointer) (bank : UInt8)
    (o : UInt16) : Prop :=
  ∀ {b : β} {k : Nat} {v : UInt8}, good b → positionInBlock o + k < blockSize →
    M (.of bank (o + UInt16.ofNat k)) = some v → (Buses.peek (p.offset (UInt64.ofNat k)) b).1 = v

/-- A byte pointer shows `M`, and whatever a line transfer does keeps `M` as it is, unless it
writes what is not cleared. -/
structure SteadyBytes (M : Address → Option UInt8) (clear : Clearance) (good : β → Prop) : Prop
    extends Steady M clear.register good where
  good_bytePointer : ∀ {b : β} (a : Address), good b → good (Buses.bytePointer a b).2
  peek_byte : ∀ {b : β} {bank : UInt8} {o : UInt16} {p : Pointer},
    good b → (Buses.bytePointer (.of bank o) b).1 = some p → Shows M good p bank o
  good_readRegister : ∀ {b : β} (a : UInt16), good b → good (Buses.readRegister a b).2
  good_write : ∀ {b : β} {a : Address} (v : UInt8),
    clear.place a → good b → good (Buses.write a v b)
  good_setSpriteAddress : ∀ {b : β} (a : UInt16), good b → good (Buses.setSpriteAddress a b)

/-! ### Blocks -/

theorem isWorkRam_of_sameBlock {o o' : UInt16} (h : SameBlock o o') (bank : UInt8) :
    isWorkRam bank o = isWorkRam bank o' := by
  have e : decide (o < 0x2000) = decide (o' < 0x2000) := by
    simp only [SameBlock, blockSize] at h
    rw [decide_eq_decide, UInt16.lt_iff_toNat_lt, UInt16.lt_iff_toNat_lt]
    simp only [UInt16.reduceToNat]
    omega
  simp only [isWorkRam, e]

theorem positionInBlock_add {o : UInt16} {k : Nat} (h : positionInBlock o + k < blockSize) :
    positionInBlock (o + UInt16.ofNat k) = positionInBlock o + k := by
  have ho := o.toNat_lt
  simp only [positionInBlock, blockSize, UInt16.toNat_add, UInt16.toNat_ofNat'] at h ⊢
  omega

end DmaController
