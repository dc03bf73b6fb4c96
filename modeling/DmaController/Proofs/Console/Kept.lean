import DmaController.Proofs.Console.Pointers
import DmaController.Proofs.Steady

/-! # Cells that a console keeps

Whatever a controller does on the board of a console, a set of memory cells keeps its bytes as long
as no write goes to one of them and none to the work RAM port, which may point there.  All other
registers may be written, and so may the rest of work RAM (`Board.clearance`).  To line transfers
these cells are then a steady memory, seen at all the addresses where the map shows them
(`Board.steadyBytes`). -/

namespace DmaController

namespace Board

/-- What is seen of the cells of `kept` while they hold what they hold in `m`. -/
def shown (kept : Nat → Prop) [DecidablePred kept] (m : Memory) (a : Address) : Option UInt8 :=
  ((Region.of a).cell?.filter kept).map m.get

/-- The cells of `kept` hold what they hold in `m`. -/
def Keeps (kept : Nat → Prop) (m : Memory) (b : Board) : Prop :=
  ∀ c, kept c → b.memory.get c = m.get c

/-- What may be written without touching a cell of `kept`. -/
def clearance (kept : Nat → Prop) : Clearance where
  register a := a ≠ 0x2180
  place a :=
    match Region.of a with
    | .workRam c => ¬ kept c
    | .registers r => r ≠ 0x2180
    | .rom _ => True
    | .nothing => True

instance (kept : Nat → Prop) : DecidablePred (clearance kept).register :=
  fun a => inferInstanceAs (Decidable (a ≠ 0x2180))

instance (kept : Nat → Prop) [DecidablePred kept] : DecidablePred (clearance kept).place := fun a =>
  match h : Region.of a with
  | .workRam c => decidable_of_iff (¬ kept c) (by simp only [clearance, h])
  | .registers r => decidable_of_iff (r ≠ 0x2180) (by simp only [clearance, h])
  | .rom _ => isTrue (by simp only [clearance, h])
  | .nothing => isTrue (by simp only [clearance, h])

/-! ### What accesses leave alone -/

theorem memory_readRegister (a : UInt16) (b : Board) : (b.readRegister a).2.memory = b.memory := by
  unfold readRegister
  split
  · split <;> rfl
  · split <;> rfl

theorem memory_read (a : Address) (b : Board) : (b.read a).2.memory = b.memory := by
  unfold read
  cases Region.of a with
  | registers r => exact memory_readRegister r b
  | _ => rfl

/-- Of all registers, only the work RAM port has memory behind it. -/
theorem memory_writeRegister {a : UInt16} (ha : a ≠ 0x2180) (v : UInt8) (b : Board) :
    (b.writeRegister a v).memory = b.memory := by
  have hport : ∀ b : Board, (b.writePort a v).memory = b.memory := by
    intro b
    unfold writePort
    rw [if_neg ha]
    split
    · rfl
    split
    · rfl
    split <;> rfl
  unfold writeRegister
  dsimp only
  rw [hport]
  split <;> rfl

/-! ### What is kept -/

variable {kept : Nat → Prop} {m : Memory}

theorem Keeps.of_memory {b b' : Board} (h : b.Keeps kept m) (hb : b'.memory = b.memory) :
    b'.Keeps kept m := by
  intro c hc
  rw [hb]
  exact h c hc

theorem Keeps.write {b : Board} (h : b.Keeps kept m) {a : Address}
    (ha : (clearance kept).place a) (v : UInt8) : (b.write a v).Keeps kept m := by
  unfold Board.write
  simp only [clearance] at ha
  cases hr : Region.of a with
  | workRam c =>
      rw [hr] at ha
      intro c' hc'
      have hne : c ≠ c' := fun e => ha (e ▸ hc')
      exact (Memory.get_set_ne _ v hne).trans (h c' hc')
  | registers r =>
      rw [hr] at ha
      exact h.of_memory (memory_writeRegister ha v b)
  | rom _ => exact h
  | nothing => exact h

variable [DecidablePred kept]

theorem shown_eq_some {a : Address} {v : UInt8} (h : shown kept m a = some v) :
    ∃ c, (Region.of a).cell? = some c ∧ kept c ∧ m.get c = v := by
  obtain ⟨c, hc, hv⟩ := Option.map_eq_some_iff.mp h
  obtain ⟨hcell, hkept⟩ := Option.filter_eq_some_iff.mp hc
  exact ⟨c, hcell, of_decide_eq_true hkept, hv⟩

/-- Looking at an address shows the byte that is kept there. -/
theorem Keeps.look {b : Board} (h : b.Keeps kept m) {a : Address} {v : UInt8}
    (hv : shown kept m a = some v) : b.look a = v := by
  obtain ⟨c, hcell, hkept, rfl⟩ := shown_eq_some hv
  rw [look_of_cell hcell, h c hkept]

/-- To line transfers the cells of `kept` are a steady memory. -/
theorem steadyBytes (kept : Nat → Prop) [DecidablePred kept] (m : Memory) :
    SteadyBytes (shown kept m) (clearance kept) (Keeps kept m) where
  read {b a v} hb hv := by
    obtain ⟨c, hcell, -⟩ := shown_eq_some hv
    show (b.read a).1 = v
    rw [read_of_cell hcell]
    exact hb.look hv
  good_read {b} a hb := hb.of_memory (memory_read a b)
  good_peek _ hb := hb
  good_writeRegister {b _} v ha hb := hb.of_memory (memory_writeRegister ha v b)
  good_setOpenBus _ hb := hb
  good_setWorkRamTaken _ hb := hb
  good_bytePointer _ hb := hb
  peek_byte {b bank o p} _ hp b' k v hb' hk hv := by
    rw [bytePointer_fst] at hp
    rw [peek_points hp hk]
    exact hb'.look hv
  good_readRegister {b} a hb := hb.of_memory (memory_readRegister a b)
  good_write v ha hb := hb.write ha v
  good_setSpriteAddress _ hb := hb

end Board

end DmaController
