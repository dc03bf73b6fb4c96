import DmaController.Proofs.Checked
import DmaController.Proofs.Console.DirectAccess
import DmaController.Proofs.Console.Reached
import DmaController.Proofs.Transfer.Faithful

/-! # A board that watches its bounds

The memory of a console has 16 MiB, its B-bus has 256 registers, and the work address of the port
counts the 128 KiB of work RAM.  The accesses here end in `none` where a cell is not there, where
the work address has left work RAM, or where the pointer to a block would start below zero.

A *checked* board has accesses of that kind, and is gone as soon as one of them has failed.  So a
whole run on checked buses has stayed in bounds if the board is still there at its end.  Accesses to
a board with its work address in range do not fail (`checked_faithful`), and leave the address in
range.  A host whose board is in range therefore runs on a checked board as on its own. -/

namespace DmaController

namespace Board

/-- The number of cells of memory. -/
def memorySize : Nat := 0x1000000

/-- The number of registers on the B-bus. -/
def registerCount : Nat := 0x100

/-! ### Accesses -/

/-- Stores bytes straight into memory. -/
def load? (a : Address) (bytes : List UInt8) (b : Board) : Option Board :=
  (b.memory.load? memorySize a.toNat bytes).map fun memory => { b with memory := memory }

/-- The contents of a register of the B-bus. -/
def register? (b : Board) (a : UInt16) : Option UInt8 :=
  b.registers.get? registerCount (a.toNat % 0x100)

/-- The byte at an address, looked at without any effect. -/
def look? (b : Board) (a : Address) : Option UInt8 :=
  match Region.of a with
  | .workRam c => b.memory.get? memorySize c
  | .rom c => b.memory.get? memorySize c
  | .registers r => b.register? r
  | .nothing => some b.openBus

/-- The memory cell that the work RAM port points to. -/
def portCell? (b : Board) : Option Nat :=
  if b.workAddress < workRamSize then some b.portCell else none

/-- Reads a register of the B-bus. -/
def readRegister? (a : UInt16) (b : Board) : Option (UInt8 × Board) :=
  if a = 0x2180 then
    if b.workRamTaken then some (b.openBus, b)
    else do
      let cell ← b.portCell?
      let v ← b.memory.get? memorySize cell
      some (v, { b.advancePort with openBus := v })
  else if 0x2181 ≤ a ∧ a ≤ 0x21FF then some (b.openBus, b)
  else do
    let v ← b.register? a
    some (v, { b with openBus := v })

/-- The effect of a write to the B-bus on the work RAM port.  The registers that set its address
look at no memory. -/
def writePort? (a : UInt16) (v : UInt8) (b : Board) : Option Board :=
  if a = 0x2180 then
    if b.workRamTaken then some b
    else do
      let cell ← b.portCell?
      let memory ← b.memory.set? memorySize cell v
      some { b.advancePort with memory := memory }
  else some (b.writePort a v)

/-- Writes a register of the B-bus. -/
def writeRegister? (a : UInt16) (v : UInt8) (b : Board) : Option Board := do
  let b ← (if b.tracing then { b with trace := (a, v) :: b.trace } else b).writePort? a v
  let registers ← b.registers.set? registerCount (a.toNat % 0x100) v
  some { b with registers := registers, openBus := v }

/-- Reads a byte of memory and leaves it floating on the bus. -/
def readCell? (c : Nat) (b : Board) : Option (UInt8 × Board) :=
  (b.memory.get? memorySize c).map fun v => (v, { b with openBus := v })

/-- Reads a byte on the A-bus. -/
def read? (a : Address) (b : Board) : Option (UInt8 × Board) :=
  match Region.of a with
  | .workRam c => b.readCell? c
  | .rom c => b.readCell? c
  | .registers r => b.readRegister? r
  | .nothing => some (b.openBus, b)

/-- Writes a byte on the A-bus. -/
def write? (a : Address) (v : UInt8) (b : Board) : Option Board :=
  match Region.of a with
  | .workRam c =>
    (b.memory.set? memorySize c v).map fun memory => { b with memory := memory, openBus := v }
  | .registers r => b.writeRegister? r v
  | .rom _ => some { b with openBus := v }
  | .nothing => some { b with openBus := v }

/-- Direct access to the block of an address, where it is memory. -/
def blockPointer? (a : Address) (b : Board) : Option (Option Pointer × Board) :=
  match (Region.of a).cell? with
  | some c => (sub? c (Address.offset a).toNat).map fun base => (some ⟨UInt64.ofNat base⟩, b)
  | none => some (none, b)

/-- Reads memory directly. -/
def peek? (p : Pointer) (b : Board) : Option (UInt8 × Board) :=
  (b.memory.get? memorySize (p.index.toNat % 0x1000000)).map fun v => (v, b)

/-! ### None of them fails -/

theorem lt_memorySize {a : Address} {c : Nat} (h : (Region.of a).cell? = some c) :
    c < memorySize := by
  rw [Region.cell?_eq] at h
  exact cellAt_lt h

theorem load?_eq (a : Address) (bytes : List UInt8) (b : Board) :
    b.load? a bytes = some (b.load a bytes) := by
  have hbytes : ∀ k < bytes.length, (a.toNat + k) % 0x1000000 < memorySize :=
    fun k _ => Nat.mod_lt _ (by decide)
  rw [load?, Memory.load?_of_lt hbytes]
  rfl

theorem register?_eq (a : UInt16) (b : Board) : b.register? a = some (b.register a) :=
  Memory.get?_of_lt (Nat.mod_lt _ (by decide))

theorem look?_eq (a : Address) (b : Board) : b.look? a = some (b.look a) := by
  have hcell := fun c => lt_memorySize (a := a) (c := c)
  unfold look? look
  cases hregion : Region.of a with
  | workRam c => exact Memory.get?_of_lt (hcell c (by rw [hregion]; rfl))
  | rom c => exact Memory.get?_of_lt (hcell c (by rw [hregion]; rfl))
  | registers r => exact register?_eq r b
  | nothing => rfl

/-- The pointer to a block starts at zero or above. -/
theorem blockPointer?_eq (a : Address) (b : Board) :
    b.blockPointer? a = some (Buses.blockPointer a b) := by
  have hle : ∀ c, (Region.of a).cell? = some c → (Address.offset a).toNat ≤ c := by
    intro c hc
    rw [Region.cell?_eq] at hc
    exact (cellAt_of_sameBlock hc rfl).1
  show _ = some (b.blockPointer a)
  unfold blockPointer? blockPointer
  cases hcell : (Region.of a).cell? with
  | none => rfl
  | some c =>
      dsimp only
      rw [sub?_of_le (hle c hcell)]
      rfl

theorem peek?_eq (p : Pointer) (b : Board) : b.peek? p = some (Buses.peek p b) := by
  have hcell : p.index.toNat % 0x1000000 < memorySize := Nat.mod_lt _ (by decide)
  rw [peek?, Memory.get?_of_lt hcell]
  rfl

section

variable {b : Board} (h : b.InRange)

include h

theorem portCell?_eq : b.portCell? = some b.portCell := if_pos h

theorem portCell_lt : b.portCell < memorySize := by
  have hrange : b.workAddress < 0x20000 := h
  show 0x7E0000 + b.workAddress < 0x1000000
  omega

theorem readRegister?_eq (a : UInt16) : b.readRegister? a = some (b.readRegister a) := by
  unfold readRegister? readRegister
  rw [portCell?_eq h, register?_eq]
  split
  · split
    · rfl
    · dsimp only [Option.bind_eq_bind, Option.bind_some]
      rw [Memory.get?_of_lt (portCell_lt h)]
      rfl
  split <;> rfl

theorem writePort?_eq (a : UInt16) (v : UInt8) : b.writePort? a v = some (b.writePort a v) := by
  unfold writePort?
  rw [portCell?_eq h]
  split
  · rename_i hport
    unfold writePort
    dsimp only [Option.bind_eq_bind, Option.bind_some]
    rw [if_pos hport, Memory.set?_of_lt (portCell_lt h)]
    split <;> rfl
  · rfl

theorem writeRegister?_eq (a : UInt16) (v : UInt8) :
    b.writeRegister? a v = some (b.writeRegister a v) := by
  have hregister : a.toNat % 0x100 < registerCount := Nat.mod_lt _ (by decide)
  have htraced : (if b.tracing then { b with trace := (a, v) :: b.trace } else b).InRange := by
    split
    · exact h
    · exact h
  unfold writeRegister?
  rw [writePort?_eq htraced]
  dsimp only [Option.bind_eq_bind, Option.bind_some]
  rw [Memory.set?_of_lt hregister]
  rfl

theorem read?_eq (a : Address) : b.read? a = some (b.read a) := by
  have hcell := fun c => lt_memorySize (a := a) (c := c)
  unfold read? read
  cases hregion : Region.of a with
  | workRam c =>
      dsimp only
      rw [readCell?, Memory.get?_of_lt (hcell c (by rw [hregion]; rfl))]
      rfl
  | rom c =>
      dsimp only
      rw [readCell?, Memory.get?_of_lt (hcell c (by rw [hregion]; rfl))]
      rfl
  | registers r => exact readRegister?_eq h r
  | nothing => rfl

theorem write?_eq (a : Address) (v : UInt8) : b.write? a v = some (b.write a v) := by
  unfold write? write
  cases hregion : Region.of a with
  | workRam c =>
      dsimp only
      rw [Memory.set?_of_lt (lt_memorySize (a := a) (by rw [hregion]; rfl))]
      rfl
  | registers r => exact writeRegister?_eq h r v
  | rom _ => rfl
  | nothing => rfl

end

/-! ### Checked buses -/

/-- The answer of a checked board, which is gone if the access has failed. -/
def answer {α : Type} [Inhabited α] : Option (α × Board) → α × Option Board
  | some (x, b) => (x, some b)
  | none => (default, none)

/-- A board with accesses that look at their bounds, or `none` when one has failed. -/
instance : Buses (Option Board) where
  read a b := answer (b.bind (read? a))
  write a v b := b.bind (write? a v)
  readRegister a b := answer (b.bind (readRegister? a))
  writeRegister a v b := b.bind (writeRegister? a v)
  blockPointer a b := answer (b.bind (blockPointer? a))
  bytePointer a b := answer (b.map (bytePointer a))
  peek p b := answer (b.bind (peek? p))
  remapsVideo b := b.any remapsVideo
  setOpenBus v b := b.map (Buses.setOpenBus v)
  setWorkRamTaken taken b := b.map (Buses.setWorkRamTaken taken)
  setSpriteAddress a b := b.map (Buses.setSpriteAddress a)

/-- A board with its work address in range. -/
abbrev Ranged := { b : Board // b.InRange }

instance : Buses Ranged where
  read a b := ((read a b).1, ⟨(read a b).2, inRange_read b.2 a⟩)
  write a v b := ⟨write a v b, inRange_write b.2 a v⟩
  readRegister a b := ((readRegister a b).1, ⟨(readRegister a b).2, inRange_readRegister b.2 a⟩)
  writeRegister a v b := ⟨writeRegister a v b, inRange_writeRegister b.2 a v⟩
  blockPointer a b := ((blockPointer a b).1, b)
  bytePointer a b := ((bytePointer a b).1, b)
  peek p b := ((peek p b).1, b)
  remapsVideo b := remapsVideo b
  setOpenBus v b := ⟨Buses.setOpenBus v b.1, b.2⟩
  setWorkRamTaken taken b := ⟨Buses.setWorkRamTaken taken b.1, b.2⟩
  setSpriteAddress a b := ⟨Buses.setSpriteAddress a b.1, b.2⟩

theorem ranged_faithful : Buses.Faithful (Subtype.val : Ranged → Board) where
  read _ _ := rfl
  write _ _ _ := rfl
  readRegister _ _ := rfl
  writeRegister _ _ _ := rfl
  blockPointer _ _ := rfl
  bytePointer _ _ := rfl
  peek _ _ := rfl
  readWord _ _ := rfl
  remapsVideo _ := rfl
  writeSprite _ _ := rfl
  writeVideo _ _ _ _ := rfl
  writeColour _ _ := rfl
  writeWorkRam _ _ := rfl
  setOpenBus _ _ := rfl
  setWorkRamTaken _ _ := rfl
  setSpriteAddress _ _ := rfl

/-- Accesses to a board with its work address in range do not fail. -/
theorem checked_faithful : Buses.Faithful fun b : Ranged => some b.1 := by
  have hread (a : Address) (b : Ranged) :
      Buses.read a (some b.1) = ((Buses.read a b).1, some (Buses.read a b).2.1) :=
    congrArg answer (read?_eq b.2 a)
  have hwriteRegister (a : UInt16) (v : UInt8) (b : Ranged) :
      Buses.writeRegister a v (some b.1) = some (Buses.writeRegister a v b).1 :=
    writeRegister?_eq b.2 a v
  constructor
  case read => exact hread
  case write => exact fun a v b => write?_eq b.2 a v
  case readRegister => exact fun a b => congrArg answer (readRegister?_eq b.2 a)
  case writeRegister => exact hwriteRegister
  case blockPointer => exact fun a b => congrArg answer (blockPointer?_eq a b.1)
  case peek => exact fun p b => congrArg answer (peek?_eq p b.1)
  case readWord =>
    intro a b
    have hlow := hread (a % 0x1000000) b
    have hhigh := hread ((a + 1) % 0x1000000) (Buses.read (a % 0x1000000) b).2
    show (let low := Buses.read (a % 0x1000000) (some b.1)
      let high := Buses.read ((a + 1) % 0x1000000) low.2
      (high.1.toUInt16 * 0x100 + low.1.toUInt16, high.2)) = _
    rw [hlow]
    dsimp only
    rw [hhigh]
    rfl
  case writeSprite => exact fun v b => hwriteRegister 0x2104 v b
  case writeVideo => exact fun high _ v b => hwriteRegister (if high then 0x2119 else 0x2118) v b
  case writeColour => exact fun v b => hwriteRegister 0x2122 v b
  case writeWorkRam => exact fun v b => hwriteRegister 0x2180 v b
  all_goals
    intros
    rfl

/-- Behind the end of work RAM, the port has no byte to give. -/
example : readRegister? 0x2180 { powerOn with workAddress := workRamSize } = none := rfl

end Board

end DmaController
