import DmaController.Bench.Recorder
import DmaController.Proofs.Steady

/-! # The memory of a recorder

The plain recorder stands in front of a steady memory, whatever it holds and whichever of its
ranges are slow: writing registers leaves the memory alone, and both kinds of pointers lead to the
cell that reading would look at. -/

namespace DmaController

namespace Recorder

attribute [local instance] plain

theorem cell_of (bank : UInt8) (o : UInt16) :
    (Address.of bank o).cell = bank.toNat * 0x10000 + o.toNat := by
  have hb := bank.toNat_lt
  have ho := o.toNat_lt
  simp only [Address.cell, Address.toNat_of]
  omega

theorem steady (m : Memory) (cleared : UInt16 → Prop) :
    Steady (fun a => some (m.get a.cell)) cleared (fun b : Recorder => b.memory = m) where
  read hb hv := by
    subst hb
    exact Option.some.inj hv
  good_read _ hb := hb
  good_peek _ hb := hb
  good_writeRegister _ _ hb := hb
  good_setOpenBus _ hb := hb
  good_setWorkRamTaken _ hb := hb

/-- A block pointer leads to the start of its bank. -/
theorem steadyBlocks (m : Memory) :
    SteadyBlocks (fun a => some (m.get a.cell)) (fun b : Recorder => b.memory = m) where
  toSteady := steady m _
  good_blockPointer _ hb := hb
  peek_block := by
    intro b b' bank o o' p v hb hp hb' _ hv
    have hp' : (if b.isSlow (.of bank o) then none
        else some ⟨UInt64.ofNat ((Address.of bank o).cell / 0x10000 * 0x10000)⟩) = some p := hp
    split at hp'
    · cases hp'
    · cases hp'
      rw [← Option.some.inj hv, cell_of, cell_of]
      show b'.memory.get _ = _
      rw [hb']
      congr 1
      have hbank := bank.toNat_lt
      have ho := o.toNat_lt
      have ho' := o'.toNat_lt
      simp only [Pointer.offset, UInt64.toNat_add, UInt64.toNat_ofNat', UInt16.toNat_toUInt64]
      omega

/-- What a recorder clears: all of its registers, and none of its memory. -/
def clearance : Clearance where
  register _ := True
  place _ := False

/-- A byte pointer leads to the byte itself. -/
theorem steadyBytes (m : Memory) :
    SteadyBytes (fun a => some (m.get a.cell)) clearance (fun b : Recorder => b.memory = m) where
  toSteady := steady m _
  good_bytePointer _ hb := hb
  peek_byte := by
    intro b bank o p _ hp b' k v hb' hk hv
    have hp' : (if b.isSlow (.of bank o) then none
        else some ⟨UInt64.ofNat (Address.of bank o).cell⟩) = some p := hp
    split at hp'
    · cases hp'
    · cases hp'
      rw [← Option.some.inj hv, cell_of, cell_of]
      show b'.memory.get _ = _
      rw [hb']
      congr 1
      have hbank := bank.toNat_lt
      have ho := o.toNat_lt
      simp only [positionInBlock, blockSize] at hk
      simp only [Pointer.offset, UInt64.toNat_add, UInt64.toNat_ofNat', UInt16.toNat_add,
        UInt16.toNat_ofNat']
      omega
  good_readRegister _ hb := by
    unfold Buses.readRegister
    show (Recorder.readRegister _ _).2.memory = m
    unfold Recorder.readRegister
    simp only
    split <;> exact hb
  good_write _ hplace _ := hplace.elim
  good_setSpriteAddress _ hb := hb

end Recorder

end DmaController
