import DmaController.Proofs.Console.Crossing

/-! # Direct access to the blocks of a console

The engine asks for a block pointer once and uses it for all the bytes of a block, in place of the
memory map.  The map of a console has borders of its own: the mirror of work RAM, the registers in
the midst of a block, the start of read-only memory.  None of them parts a block in which one
address lies in memory and another does not, or where cells do not follow each other as the offsets
do (`cellAt_of_sameBlock`).

So a block pointer is the same wherever in its block it is asked for, and leads to what the map
finds at each address there, on whatever board it is used afterwards (`blockPointer_serves_block`).
The map goes by bank and offset alone (`Region.cell?_eq`), also where an address has bits above its
bank. -/

namespace DmaController

/-! ### The map by bank and offset -/

theorem Address.cell_eq (a : Address) :
    a.cell = (Address.bank a).toNat * 0x10000 + (Address.offset a).toNat := by
  simp only [cell, bank, offset, UInt32.toNat_toUInt8, UInt32.toNat_div, UInt32.toNat_toUInt16,
    UInt32.reduceToNat]
  omega

theorem Region.of_eq (a : Address) :
    of a = of (.of (Address.bank a) (Address.offset a)) := by
  have hcell : (Address.of (Address.bank a) (Address.offset a)).cell = a.cell := by
    rw [Address.cell_eq, Address.cell_eq a, Address.bank_of, Address.offset_of]
  unfold of
  rw [Address.bank_of, Address.offset_of, hcell]

theorem Region.cell?_eq (a : Address) :
    (of a).cell? = cellAt (Address.bank a) (Address.offset a) := by
  rw [of_eq, cell?_of]

/-- No system bank is one of the two banks that are work RAM throughout. -/
theorem isWorkRamBank_of_isSystemBank {bank : UInt8} (h : isSystemBank bank = true) :
    isWorkRamBank bank = false := by
  unfold isWorkRamBank
  rw [Bool.or_eq_false_iff, beq_eq_false_iff_ne, beq_eq_false_iff_ne]
  constructor
  · rintro rfl
    exact absurd h (by decide)
  · rintro rfl
    exact absurd h (by decide)

/-- Work RAM is found in its own banks and at the bottom of the system banks. -/
theorem Region.of_eq_workRam_iff (a : Address) :
    (∃ c, of a = workRam c) ↔ isWorkRam (Address.bank a) (Address.offset a) = true := by
  unfold of isWorkRam
  dsimp only
  by_cases hsystem : isSystemBank (Address.bank a) = true
  · rw [if_pos hsystem, isWorkRamBank_of_isSystemBank hsystem, hsystem]
    by_cases hlow : Address.offset a < 0x2000
    · simp [hlow]
    · rw [if_neg hlow]
      simp only [hlow, decide_false, Bool.and_false, Bool.or_false, Bool.false_eq_true, iff_false,
        not_exists]
      intro c hc
      split at hc
      · cases hc
      · split at hc <;> cases hc
  · rw [if_neg hsystem]
    by_cases hbank : isWorkRamBank (Address.bank a) = true
    · simp [hbank]
    · simp [hbank, hsystem]

namespace Board

/-! ### Pointers to a block -/

theorem blockPointer_fst (a : Address) (b : Board) :
    (Buses.blockPointer a b).1 = (cellAt (Address.bank a) (Address.offset a)).map
      fun n => ⟨UInt64.ofNat (n - (Address.offset a).toNat)⟩ := by
  rw [← Region.cell?_eq]
  rfl

theorem blockPointer_eq_of (a : Address) (b : Board) :
    Buses.blockPointer a b =
      Buses.blockPointer (.of (Address.bank a) (Address.offset a)) b := by
  refine Prod.ext ?_ rfl
  rw [blockPointer_fst, blockPointer_fst, Address.bank_of, Address.offset_of]

theorem bytePointer_eq_pointerTo (a : Address) (b : Board) :
    (Buses.bytePointer a b).1 = pointerTo (Address.bank a) (Address.offset a) := by
  show (Region.of a).cell?.map _ = _
  rw [Region.cell?_eq]
  rfl

/-- A block pointer is the same wherever in its block it is asked for. -/
theorem blockPointer_of_sameBlock (b : Board) {bank : UInt8} {o o' : UInt16}
    (hsame : SameBlock o o') :
    (Buses.blockPointer (.of bank o) b).1 = (Buses.blockPointer (.of bank o') b).1 := by
  rw [blockPointer_fst, blockPointer_fst, Address.bank_of, Address.bank_of, Address.offset_of,
    Address.offset_of]
  cases hcell : cellAt bank o with
  | some n =>
      obtain ⟨hle, hcell'⟩ := cellAt_of_sameBlock hcell hsame
      rw [hcell', Option.map_some, Option.map_some, Nat.add_sub_cancel]
  | none =>
      cases hcell' : cellAt bank o' with
      | none => rfl
      | some n =>
          obtain ⟨-, h⟩ := cellAt_of_sameBlock hcell' hsame.symm
          rw [hcell] at h
          cases h

/-- What lies behind the pointer to an address is what reading there gives. -/
theorem peek_eq_read {p : Pointer} {a : Address}
    (h : Points p (Address.bank a) (Address.offset a)) (b : Board) :
    (Buses.peek p b).1 = (Buses.read a b).1 ∧
      (Buses.read a b).2 = { b with openBus := (Buses.read a b).1 } := by
  have hcell : (Region.of a).cell? = some p.cell := by
    rw [Region.cell?_eq, cell_of_points h]
  have hread : Buses.read a b = (b.look a, { b with openBus := b.look a }) := read_of_cell hcell b
  rw [hread]
  exact ⟨(look_of_cell hcell b).symm, rfl⟩

/-- After a write to an address, its pointer leads to the byte written if there is work RAM, and
otherwise to the byte that was there. -/
theorem peek_write {p : Pointer} {a : Address}
    (h : Points p (Address.bank a) (Address.offset a)) (v : UInt8) (b : Board) :
    (Buses.peek p (Buses.write a v b)).1 =
      if isWorkRam (Address.bank a) (Address.offset a) then v else (Buses.peek p b).1 := by
  have hcell : (Region.of a).cell? = some p.cell := by
    rw [Region.cell?_eq, cell_of_points h]
  have hram := Region.of_eq_workRam_iff a
  show (b.write a v).memory.get p.cell = if _ then v else b.memory.get p.cell
  unfold write
  cases hregion : Region.of a with
  | workRam n =>
      rw [hregion] at hcell hram
      cases hcell
      rw [if_pos (hram.mp ⟨_, rfl⟩)]
      exact Memory.get_set_same _ _ _
  | rom n =>
      rw [hregion] at hram
      rw [if_neg]
      intro htrue
      obtain ⟨c, hc⟩ := hram.mpr htrue
      cases hc
  | registers _ =>
      rw [hregion] at hcell
      cases hcell
  | nothing =>
      rw [hregion] at hcell
      cases hcell

end Board

/-- Of two addresses in one block of a bank, the board gives out the same block pointer, or none,
and a pointer to the byte at one of them just if it gives out one to the block.  On a board that
may have changed since, the block pointer leads from the one address to the byte at the other: its
byte pointer lies as far on as the offset says, behind it is what reading shows, which leaves
nothing but that byte behind on the bus, and writing changes it just where there is work RAM. -/
theorem blockPointer_serves_block (b now : Board) {a a' : Address}
    (hbank : Address.bank a = Address.bank a')
    (hblock : SameBlock (Address.offset a) (Address.offset a')) :
    Buses.blockPointer a b = Buses.blockPointer a' b ∧
      ((Buses.bytePointer a' b).1.isSome ↔ (Buses.blockPointer a b).1.isSome) ∧
      ((∃ c, Region.of a' = .workRam c) ↔
        isWorkRam (Address.bank a') (Address.offset a') = true) ∧
      ∀ base, (Buses.blockPointer a b).1 = some base →
        let p := base.offset (Address.offset a').toUInt64
        Buses.bytePointer a' b = (some p, b) ∧
          Buses.peek p now = ((Buses.read a' now).1, now) ∧
          (Buses.read a' now).2 = { now with openBus := (Buses.read a' now).1 } ∧
          ∀ v, (Buses.peek p (Buses.write a' v now)).1 =
            if isWorkRam (Address.bank a') (Address.offset a') then v
            else (Buses.peek p now).1 := by
  have hsame : (Buses.blockPointer a b).1 = (Buses.blockPointer a' b).1 := by
    rw [Board.blockPointer_eq_of a, Board.blockPointer_eq_of a', hbank]
    exact Board.blockPointer_of_sameBlock b hblock
  refine ⟨Prod.ext hsame rfl, ?_, Region.of_eq_workRam_iff a', fun base hbase => ?_⟩
  · rw [hsame, Board.blockPointer_fst, Board.bytePointer_eq_pointerTo, Board.pointerTo]
    simp only [Option.isSome_map]
  · rw [Board.blockPointer_eq_of, hbank] at hbase
    have hpoints := Board.points_of_blockPointer hbase hblock
    have hbyte : (Buses.bytePointer a' b).1 = some (base.offset (Address.offset a').toUInt64) := by
      rw [Board.bytePointer_eq_pointerTo]
      exact hpoints
    obtain ⟨hpeek, hleft⟩ := Board.peek_eq_read hpoints now
    exact ⟨Prod.ext hbyte rfl, Prod.ext hpeek rfl, hleft, fun v => Board.peek_write hpoints v now⟩

/-- The mirror of work RAM in bank `$00`, asked for at the start of its second block, serves a byte
in the midst of that block. -/
theorem mirror_serves_block :
    let b := Board.powerOn.load 0x7E1234 [0x5A]
    let p := Pointer.offset ⟨0x7E0000⟩ 0x1234
    SameBlock (Address.offset 0x001000) (Address.offset 0x001234) ∧
      (Buses.blockPointer 0x001000 b).1 = some ⟨0x7E0000⟩ ∧
      (Buses.bytePointer 0x001234 b).1 = some p ∧
      (Buses.peek p b).1 = 0x5A ∧ (Buses.read 0x001234 b).1 = 0x5A ∧
      ∀ v, (Buses.peek p (Buses.write 0x001234 v b)).1 = v := by
  intro b p
  have hblock : SameBlock (Address.offset 0x001000) (Address.offset 0x001234) := by
    unfold SameBlock
    decide
  have hbank : Address.bank 0x001000 = Address.bank 0x001234 := by decide
  obtain ⟨-, -, -, hserves⟩ := blockPointer_serves_block b b hbank hblock
  have hbase : (Buses.blockPointer 0x001000 b).1 = some ⟨0x7E0000⟩ := rfl
  obtain ⟨hbyte, hpeek, -, hwrite⟩ := hserves ⟨0x7E0000⟩ hbase
  have hshown : (Buses.read 0x001234 b).1 = 0x5A := by decide +kernel
  exact ⟨hblock, hbase, congrArg Prod.fst hbyte, (congrArg Prod.fst hpeek).trans hshown, hshown,
    fun v => hwrite v⟩

end DmaController
