import DmaController.Console.Board
import DmaController.Proofs.LineTransfer.Cache

/-! # The pointers of a console

The board gives out byte pointers by address alone (`pointerTo`), so one can say at any time
whether a pointer is the right one for an address, whatever was done since it was given out
(`Points`).  Inside a block pointers move along with the addresses (`reaching_points`), they lead
to the byte that looking at the address shows (`peek_points`), and no two offsets of a bank have the
same one (`offset_eq_of_points`). -/

namespace DmaController

/-- The memory cell at `bank:offset`, where there is memory. -/
def cellAt (bank : UInt8) (o : UInt16) : Option Nat :=
  if isSystemBank bank then
    if o.toNat < 0x2000 then some (Region.workRamStart + o.toNat)
    else if o.toNat < 0x8000 then none
    else some (bank.toNat * 0x10000 + o.toNat)
  else some (bank.toNat * 0x10000 + o.toNat)

theorem cellAt_lt {bank : UInt8} {o : UInt16} {c : Nat} (h : cellAt bank o = some c) :
    c < 0x1000000 := by
  have hb := bank.toNat_lt
  have ho := o.toNat_lt
  have hstart : Region.workRamStart = 0x7E0000 := rfl
  unfold cellAt at h
  split at h
  · split at h
    · cases h
      omega
    · split at h
      · cases h
      · cases h
        omega
  · cases h
    omega

/-- Every cell lies at the offset it is seen at. -/
theorem cellAt_mod {bank : UInt8} {o : UInt16} {c : Nat} (h : cellAt bank o = some c) :
    c % 0x10000 = o.toNat := by
  have ho := o.toNat_lt
  have hstart : Region.workRamStart = 0x7E0000 := rfl
  unfold cellAt at h
  split at h
  · split at h
    · cases h
      omega
    · split at h
      · cases h
      · cases h
        omega
  · cases h
    omega

/-- Inside a block, cells follow each other as the offsets do. -/
theorem cellAt_add {bank : UInt8} {o : UInt16} {n : Nat}
    (hn : positionInBlock o + n < blockSize) :
    cellAt bank (o + UInt16.ofNat n) = (cellAt bank o).map (· + n) := by
  have ho := o.toNat_lt
  have hsum : (o + UInt16.ofNat n).toNat = o.toNat + n := by
    simp only [positionInBlock, blockSize] at hn
    rw [UInt16.toNat_add, UInt16.toNat_ofNat']
    omega
  simp only [positionInBlock, blockSize] at hn
  unfold cellAt
  rw [hsum]
  by_cases hs : isSystemBank bank = true
  · rw [if_pos hs, if_pos hs]
    by_cases hlow : o.toNat < 0x2000
    · rw [if_pos hlow, if_pos (by omega), Option.map_some, Nat.add_assoc]
    · rw [if_neg hlow, if_neg (by omega)]
      by_cases hmiddle : o.toNat < 0x8000
      · rw [if_pos hmiddle, if_pos (by omega), Option.map_none]
      · rw [if_neg hmiddle, if_neg (by omega), Option.map_some, Nat.add_assoc]
  · rw [if_neg hs, if_neg hs, Option.map_some, Nat.add_assoc]

theorem Region.cell?_of (bank : UInt8) (o : UInt16) :
    (Region.of (.of bank o)).cell? = cellAt bank o := by
  have hb := bank.toNat_lt
  have ho := o.toNat_lt
  have hcell : (Address.of bank o).cell = bank.toNat * 0x10000 + o.toNat := by
    simp only [Address.cell, Address.toNat_of]
    omega
  have hlt : ∀ n : UInt16, o < n ↔ o.toNat < n.toNat := fun n => UInt16.lt_iff_toNat_lt
  have hlow' : o < 0x2000 ↔ o.toNat < 0x2000 := hlt 0x2000
  have hmiddle' : o < 0x8000 ↔ o.toNat < 0x8000 := hlt 0x8000
  unfold Region.of cellAt
  dsimp only
  rw [Address.bank_of, Address.offset_of, hcell]
  by_cases hs : isSystemBank bank = true
  · rw [if_pos hs, if_pos hs]
    by_cases hlow : o < 0x2000
    · rw [if_pos hlow, if_pos (hlow'.mp hlow)]
      rfl
    · rw [if_neg hlow, if_neg (fun h => hlow (hlow'.mpr h))]
      by_cases hregisters : 0x2100 ≤ o ∧ o ≤ 0x21FF
      · have hmiddle : o.toNat < 0x8000 := by
          have := UInt16.le_iff_toNat_le.mp hregisters.2
          change o.toNat ≤ 0x21FF at this
          omega
        rw [if_pos hregisters, if_pos hmiddle]
        rfl
      · rw [if_neg hregisters]
        by_cases hmiddle : o < 0x8000
        · rw [if_pos hmiddle, if_pos (hmiddle'.mp hmiddle)]
          rfl
        · rw [if_neg hmiddle, if_neg (fun h => hmiddle (hmiddle'.mpr h))]
          rfl
  · rw [if_neg hs, if_neg hs]
    split <;> rfl

/-- The cell behind a pointer of a board. -/
def Pointer.cell (p : Pointer) : Nat := p.index.toNat % 0x1000000

namespace Board

/-- The byte pointer to `bank:offset`, where there is memory. -/
def pointerTo (bank : UInt8) (o : UInt16) : Option Pointer :=
  (cellAt bank o).map fun c => ⟨UInt64.ofNat c⟩

theorem bytePointer_fst (bank : UInt8) (o : UInt16) (b : Board) :
    (Buses.bytePointer (.of bank o) b).1 = pointerTo bank o := by
  show (Region.of (.of bank o)).cell?.map _ = _
  rw [Region.cell?_of]
  rfl

/-- The pointer is the one to `bank:offset`. -/
def Points (p : Pointer) (bank : UInt8) (o : UInt16) : Prop := pointerTo bank o = some p

instance (p : Pointer) (bank : UInt8) (o : UInt16) : Decidable (Points p bank o) :=
  inferInstanceAs (Decidable (pointerTo bank o = some p))

theorem reaching_points : Reaching (fun _ : Board => True) Points where
  opened := by
    intro b bank o p _ hp
    rwa [bytePointer_fst] at hp
  moved := by
    intro bank o p n hn hp
    unfold Points pointerTo at *
    rw [cellAt_add hn]
    cases hc : cellAt bank o with
    | none =>
        rw [hc] at hp
        cases hp
    | some c =>
        rw [hc] at hp
        cases hp
        rw [Option.map_some, Option.map_some, Pointer.offset, UInt64.ofNat_add]
  good_read _ _ := trivial
  good_readWord _ _ := trivial

/-- A pointer leads to the cell of its address. -/
theorem cell_of_points {p : Pointer} {bank : UInt8} {o : UInt16} (h : Points p bank o) :
    some p.cell = cellAt bank o := by
  unfold Points pointerTo at h
  cases hc : cellAt bank o with
  | none =>
      rw [hc] at h
      cases h
  | some n =>
      rw [hc] at h
      cases h
      have hlt := cellAt_lt hc
      rw [Pointer.cell, UInt64.toNat_ofNat', Option.some_inj]
      omega

/-- Two offsets of a bank with the same pointer are the same. -/
theorem offset_eq_of_points {p : Pointer} {bank : UInt8} {o o' : UInt16} (h : Points p bank o)
    (h' : Points p bank o') : o = o' := by
  have hcell := cellAt_mod (cell_of_points h).symm
  have hcell' := cellAt_mod (cell_of_points h').symm
  exact UInt16.toNat_inj.mp (hcell.symm.trans hcell')

/-- Looking at memory shows what its cell holds. -/
theorem look_of_cell {a : Address} {c : Nat} (h : (Region.of a).cell? = some c) (b : Board) :
    b.look a = b.memory.get c := by
  unfold look
  cases hr : Region.of a with
  | workRam _ =>
      rw [hr] at h
      cases h
      rfl
  | rom _ =>
      rw [hr] at h
      cases h
      rfl
  | registers _ =>
      rw [hr] at h
      cases h
  | nothing =>
      rw [hr] at h
      cases h

/-- Reading memory leaves the byte floating on the bus, and nothing else behind. -/
theorem read_of_cell {a : Address} {c : Nat} (h : (Region.of a).cell? = some c) (b : Board) :
    b.read a = (b.look a, { b with openBus := b.look a }) := by
  unfold read look
  cases hr : Region.of a with
  | workRam _ => rfl
  | rom _ => rfl
  | registers _ =>
      rw [hr] at h
      cases h
  | nothing => rfl

/-- What lies behind a pointer is what looking at its address shows. -/
theorem peek_points {p : Pointer} {bank : UInt8} {o : UInt16} (h : Points p bank o) {k : Nat}
    (hk : positionInBlock o + k < blockSize) (b : Board) :
    (Buses.peek (p.offset (UInt64.ofNat k)) b).1 = b.look (.of bank (o + UInt16.ofNat k)) := by
  have hcell := (cell_of_points (reaching_points.moved hk h)).symm
  exact (look_of_cell ((Region.cell?_of bank _).trans hcell) b).symm

end Board

end DmaController
