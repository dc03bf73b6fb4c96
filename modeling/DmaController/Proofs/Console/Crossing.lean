import DmaController.Proofs.Console.Freshness
import DmaController.Proofs.LineTransfer.Units
import DmaController.Proofs.Work

/-! # Bytes between the two buses

A `Crossing` is a byte on its way between the A-bus and a register of a console's board: where the
registers of its channel say that it lies, the direct access by which it is fetched instead, if it
is, and the board before and after the register has been reached.

Work RAM lies on both buses: on the A-bus with its own addresses, and on the B-bus behind its port.
A crossing to the port is `Exclusive` if the port serves the byte where work RAM does not do so on
the A-bus, and keeps still where it does.  What the port does depends on what the board was told
before (`Obeys`), so all turns on whether it was told the truth (`Obeys.exclusive_iff`).

`Rig.crossings` are those of the unit that a channel sends in its turn, and the turn leaves the
buses as the last of them does (`Rig.buses_sendInTurn`).  The board is told what the registers say
(`Rig.sound_crossings`), which is the truth wherever the direct access of the channel leads to the
same place (`Rig.settled_crossings`). -/

namespace DmaController

/-- Whether a cell belongs to work RAM. -/
def isWorkRamCell (n : Nat) : Bool :=
  decide (Region.workRamStart ≤ n) && decide (n < Region.workRamStart + workRamSize)

/-- A byte on its way between the A-bus and a register. -/
structure Crossing (β : Type) where
  /-- The bank where its channel says that the byte lies. -/
  bank : UInt8
  /-- The offset where its channel says that the byte lies. -/
  offset : UInt16
  /-- The direct access by which it is fetched, if it is. -/
  direct : Option Pointer
  register : UInt16
  /-- Whether the register is read, and not written. -/
  collected : Bool
  value : UInt8
  /-- The buses when the register is reached. -/
  before : β
  /-- The buses when the register has been read or written. -/
  after : β

namespace Crossing

/-- The buses when the byte is where it goes.  One that has been collected is written to its
place. -/
def arrived {β : Type} [Buses β] (c : Crossing β) : β :=
  if c.collected then Buses.write (.of c.bank c.offset) c.value c.after else c.after

/-- The cell where a byte really lies on the A-bus, if it lies in memory. -/
def cell (c : Crossing Board) : Option Nat :=
  (c.direct.map Pointer.cell).or (cellAt c.bank c.offset)

/-- Whether the byte really lies in work RAM. -/
def inWorkRam (c : Crossing Board) : Bool := c.cell.any isWorkRamCell

/-- The byte really lies where its channel says. -/
def Settled (c : Crossing Board) : Prop := c.cell = cellAt c.bank c.offset

/-- A byte that is sent is the one in its cell. -/
def Fetched (c : Crossing Board) : Prop :=
  c.collected = false → ∀ n, c.cell = some n → c.value = c.before.memory.get n

/-- The port takes part: it reads or writes the byte it points to, and moves on. -/
structure Served (c : Crossing Board) : Prop where
  workAddress : c.after.workAddress = (c.before.workAddress + 1) % workRamSize
  read : c.collected = true →
    c.value = c.before.memory.get c.before.portCell ∧ c.after.memory = c.before.memory
  written : c.collected = false →
    c.after.memory = c.before.memory.set c.before.portCell c.value

/-- The port keeps still: it does not move, memory stays as it is, and nothing is read there. -/
structure Missed (c : Crossing Board) : Prop where
  workAddress : c.after.workAddress = c.before.workAddress
  memory : c.after.memory = c.before.memory
  read : c.collected = true → c.value = c.before.openBus

/-- The port serves the byte if and only if work RAM does not do so on the A-bus, and keeps still if
it does. -/
structure Exclusive (c : Crossing Board) : Prop where
  served_iff : c.Served ↔ c.inWorkRam = false
  missed : c.inWorkRam = true → c.Missed

/-- The port keeps still if `taken`, and serves the byte otherwise. -/
structure Obeys (taken : Bool) (c : Crossing Board) : Prop where
  served : taken = false → c.Served
  missed : taken = true → c.Missed

/-- What is true of every byte: it is fetched from its cell, and if it is for the port, then the
port goes by the place that its channel says. -/
structure Sound (c : Crossing Board) : Prop where
  fetched : c.Fetched
  obeys : c.register = 0x2180 → c.Obeys (isWorkRam c.bank c.offset)

variable {c : Crossing Board} {taken : Bool}

/-- The port always moves on if it takes part. -/
theorem Missed.not_served (h : c.Missed) : ¬ c.Served := by
  intro hserved
  have hmoved := hserved.workAddress
  rw [h.workAddress] at hmoved
  unfold workRamSize at hmoved
  omega

/-- What the port does is right if and only if what it goes by is. -/
theorem Obeys.exclusive_iff (h : c.Obeys taken) : c.Exclusive ↔ c.inWorkRam = taken := by
  constructor
  · intro hc
    cases taken with
    | false => exact hc.served_iff.mp (h.served rfl)
    | true =>
        rw [← Bool.not_eq_false]
        exact fun hfree => (h.missed rfl).not_served (hc.served_iff.mpr hfree)
  · rintro rfl
    refine ⟨⟨fun hserved => ?_, h.served⟩, h.missed⟩
    rw [← Bool.not_eq_true]
    exact fun hin => (h.missed hin).not_served hserved

end Crossing

/-! ### The port of the board -/

namespace Board

theorem taken_readRegister (a : UInt16) (b : Board) :
    (b.readRegister a).2.workRamTaken = b.workRamTaken := by
  unfold readRegister
  split
  · split <;> rfl
  · split <;> rfl

theorem taken_writePort (a : UInt16) (v : UInt8) (b : Board) :
    (b.writePort a v).workRamTaken = b.workRamTaken := by
  unfold writePort
  dsimp only
  split
  · split <;> rfl
  · split
    · rfl
    · split
      · rfl
      · split <;> rfl

theorem taken_writeRegister (a : UInt16) (v : UInt8) (b : Board) :
    (b.writeRegister a v).workRamTaken = b.workRamTaken := by
  unfold writeRegister
  dsimp only
  rw [taken_writePort]
  split <;> rfl

theorem taken_read (a : Address) (b : Board) : (b.read a).2.workRamTaken = b.workRamTaken := by
  unfold read
  split
  · rfl
  · rfl
  · exact taken_readRegister _ b
  · rfl

theorem taken_write (a : Address) (v : UInt8) (b : Board) :
    (b.write a v).workRamTaken = b.workRamTaken := by
  unfold write
  split
  · rfl
  · exact taken_writeRegister _ v b
  · rfl
  · rfl

/-- A board keeps what it was last told of work RAM. -/
theorem heeds : Heeds Board.workRamTaken where
  said _ _ := rfl
  kept := by
    intro b b' h
    cases h with
    | read a => exact taken_read a b
    | readWord a => exact (taken_read _ _).trans (taken_read _ b)
    | write a v => exact taken_write a v b
    | readRegister a => exact taken_readRegister a b
    | writeRegister a v => exact taken_writeRegister a v b
    | writeSprite v => exact taken_writeRegister _ v b
    | writeVideo high remapped v => exact taken_writeRegister _ v b
    | writeColour v => exact taken_writeRegister _ v b
    | writeWorkRam v => exact taken_writeRegister _ v b
    | _ => rfl

/-- Reading the port goes by what the board was told. -/
theorem obeys_readRegister (bank : UInt8) (o : UInt16) (direct : Option Pointer) (b : Board) :
    Crossing.Obeys b.workRamTaken
      ⟨bank, o, direct, 0x2180, true, (Buses.readRegister 0x2180 b).1, b,
        (Buses.readRegister 0x2180 b).2⟩ := by
  have hread : Buses.readRegister 0x2180 b =
      if b.workRamTaken then (b.openBus, b)
      else (b.memory.get b.portCell, { b.advancePort with openBus := b.memory.get b.portCell }) :=
    rfl
  cases ht : b.workRamTaken with
  | false =>
      rw [ht, if_neg Bool.false_ne_true] at hread
      rw [hread]
      exact ⟨fun _ => ⟨rfl, fun _ => ⟨rfl, rfl⟩, nofun⟩, nofun⟩
  | true =>
      rw [ht, if_pos rfl] at hread
      rw [hread]
      exact ⟨nofun, fun _ => ⟨rfl, rfl, fun _ => rfl⟩⟩

/-- So does writing it. -/
theorem obeys_writeRegister (bank : UInt8) (o : UInt16) (direct : Option Pointer) (v : UInt8)
    (b : Board) :
    Crossing.Obeys b.workRamTaken
      ⟨bank, o, direct, 0x2180, false, v, b, Buses.writeRegister 0x2180 v b⟩ := by
  have hwrite : (Buses.writeRegister 0x2180 v b).workAddress =
        (if b.workRamTaken then b.workAddress else (b.workAddress + 1) % workRamSize) ∧
      (Buses.writeRegister 0x2180 v b).memory =
        if b.workRamTaken then b.memory else b.memory.set b.portCell v := by
    obtain ⟨memory, registers, workAddress, openBus, taken, sprite, tracing, trace⟩ := b
    cases tracing <;> cases taken <;> exact ⟨rfl, rfl⟩
  obtain ⟨haddress, hmemory⟩ := hwrite
  cases ht : b.workRamTaken with
  | false =>
      rw [ht, if_neg Bool.false_ne_true] at haddress hmemory
      exact ⟨fun _ => ⟨haddress, nofun, fun _ => hmemory⟩, nofun⟩
  | true =>
      rw [ht, if_pos rfl] at haddress hmemory
      exact ⟨nofun, fun _ => ⟨haddress, hmemory, nofun⟩⟩

end Board

/-! ### Places in work RAM -/

/-- What an address says of work RAM is what its cell says. -/
theorem any_cellAt (bank : UInt8) (o : UInt16) :
    (cellAt bank o).any isWorkRamCell = isWorkRam bank o := by
  have hb := bank.toNat_lt
  have ho := o.toNat_lt
  have hbank : isWorkRamBank bank = true ↔ bank.toNat = 0x7E ∨ bank.toNat = 0x7F := by
    simp [isWorkRamBank, ← UInt8.toNat_inj]
  have hsystem : isSystemBank bank = true ↔ bank.toNat % 0x80 < 0x40 := by
    simp [isSystemBank, UInt8.lt_iff_toNat_lt]
  have hlow : o < 0x2000 ↔ o.toNat < 0x2000 := UInt16.lt_iff_toNat_lt
  have hcell : ∀ n, isWorkRamCell n = true ↔ 0x7E0000 ≤ n ∧ n < 0x800000 := by
    intro n
    rw [isWorkRamCell, Bool.and_eq_true, decide_eq_true_eq, decide_eq_true_eq]
    exact Iff.rfl
  have hstart : Region.workRamStart = 0x7E0000 := rfl
  rw [Bool.eq_iff_iff, isWorkRam, Bool.or_eq_true, Bool.and_eq_true, decide_eq_true_eq, hbank, hlow,
    hsystem]
  unfold cellAt
  by_cases hs : isSystemBank bank = true
  · rw [if_pos hs]
    rw [hsystem] at hs
    by_cases hbottom : o.toNat < 0x2000
    · rw [if_pos hbottom, Option.any_some, hcell]
      omega
    · rw [if_neg hbottom]
      by_cases hmiddle : o.toNat < 0x8000
      · rw [if_pos hmiddle, Option.any_none]
        simp only [Bool.false_eq_true, false_iff]
        omega
      · rw [if_neg hmiddle, Option.any_some, hcell]
        omega
  · rw [if_neg hs, Option.any_some, hcell]
    rw [hsystem] at hs
    omega

theorem Crossing.Settled.inWorkRam_eq {c : Crossing Board} (h : c.Settled) :
    c.inWorkRam = isWorkRam c.bank c.offset := by
  rw [inWorkRam, h, any_cellAt]

/-- Inside a block, cells are as far apart as their offsets. -/
theorem cellAt_of_sameBlock {bank : UInt8} {o o' : UInt16} {n : Nat} (h : cellAt bank o = some n)
    (hsame : SameBlock o o') :
    o.toNat ≤ n ∧ cellAt bank o' = some (n - o.toNat + o'.toNat) := by
  have hstart : Region.workRamStart = 0x7E0000 := rfl
  simp only [SameBlock, blockSize] at hsame
  unfold cellAt at h ⊢
  by_cases hs : isSystemBank bank = true
  · rw [if_pos hs] at h ⊢
    by_cases hbottom : o.toNat < 0x2000
    · rw [if_pos hbottom] at h
      cases h
      rw [if_pos (by omega), Option.some_inj]
      omega
    · rw [if_neg hbottom] at h
      by_cases hmiddle : o.toNat < 0x8000
      · rw [if_pos hmiddle] at h
        cases h
      · rw [if_neg hmiddle] at h
        cases h
        rw [if_neg (by omega), if_neg (by omega), Option.some_inj]
        omega
  · rw [if_neg hs] at h ⊢
    cases h
    rw [Option.some_inj]
    omega

namespace Board

/-- The pointer to a block leads to all addresses of the block. -/
theorem points_of_blockPointer {b : Board} {bank : UInt8} {o o' : UInt16} {p : Pointer}
    (hp : (Buses.blockPointer (.of bank o) b).1 = some p) (hsame : SameBlock o o') :
    Points (p.offset o'.toUInt64) bank o' := by
  have hopened : (cellAt bank o).map (fun n => (⟨UInt64.ofNat (n - o.toNat)⟩ : Pointer)) =
      some p := by
    rw [← hp, ← Region.cell?_of]
    show _ = (Region.of (.of bank o)).cell?.map fun n =>
      (⟨UInt64.ofNat (n - (Address.offset (.of bank o)).toNat)⟩ : Pointer)
    rw [Address.offset_of]
  cases hn : cellAt bank o with
  | none =>
      rw [hn] at hopened
      cases hopened
  | some n =>
      rw [hn] at hopened
      cases hopened
      obtain ⟨hle, hcell⟩ := cellAt_of_sameBlock hn hsame
      rw [Points, pointerTo, hcell, Option.map_some, Option.some_inj, Pointer.offset,
        Pointer.mk.injEq, UInt64.ofNat_add]
      congr 1
      apply UInt64.toNat_inj.mp
      have ho := o'.toNat_lt
      rw [UInt16.toNat_toUInt64, UInt64.toNat_ofNat']
      omega

/-- Reading memory shows what its cell holds, and leaves it there. -/
theorem read_cell {a : Address} {n : Nat} (h : (Region.of a).cell? = some n) (b : Board) :
    (Buses.read a b).1 = (Buses.read a b).2.memory.get n := by
  have hread : Buses.read a b = (b.look a, { b with openBus := b.look a }) := read_of_cell h b
  rw [hread]
  exact look_of_cell h b

end Board

/-! ### Units -/

/-- The ways that the bytes of a unit can take. -/
inductive UnitWay where
  | collecting
  | straddling
  | mapped
  | direct (p : Pointer)

/-- The way of the next unit of a channel. -/
def Channel.way (c : Channel) : UnitWay :=
  if c.control.reverse then .collecting
  else if c.unitReachesBlockEnd then .straddling
  else
    match c.cache with
    | none => .mapped
    | some p => .direct p

namespace UnitWay

section

variable {β : Type} [Buses β]

/-- Sends byte `k` of a unit, which has been fetched, and tells of it. -/
def send (c : Channel) (k : Nat) (o : UInt8) (direct : Option Pointer) (v : UInt8) (r : Rig β) :
    Crossing β × Rig β :=
  let sent := r.writeRegister (c.register o) v
  (⟨c.lineBank, c.lineOffset + UInt16.ofNat k, direct, c.register o, false, v, r.buses,
    sent.buses⟩, sent.spend slowAccess)

/-- Moves byte `k` of a unit, for the register at `o`, and tells of it. -/
def move (c : Channel) (k : Nat) (o : UInt8) (r : Rig β) : UnitWay → Crossing β × Rig β
  | collecting =>
    let a := c.lineOffset + UInt16.ofNat k
    let r := r.setWorkRamTaken (isWorkRam c.lineBank a)
    let got := r.readRegister (c.register o)
    (⟨c.lineBank, a, none, c.register o, true, got.1, r.buses, got.2.buses⟩,
      (got.2.write (.of c.lineBank a) got.1).spend slowAccess)
  | straddling =>
    let a := c.lineOffset + UInt16.ofNat k
    let got := (r.setWorkRamTaken (isWorkRam c.lineBank a)).read (.of c.lineBank a)
    send c k o none got.1 got.2
  | mapped =>
    let got := r.read (Address.of c.lineBank c.lineOffset + UInt32.ofNat k)
    send c k o none got.1 got.2
  | direct p =>
    let got := r.peek (p.offset (UInt64.ofNat k))
    let floating :=
      if k + 1 = c.mode.size ∧ c.mode.isAlternating then got.2.modifyBuses (Buses.setOpenBus got.1)
      else got.2
    send c k o (some (p.offset (UInt64.ofNat k))) got.1 floating

/-- Moves bytes of a unit one after the other. -/
def moves (way : UnitWay) (c : Channel) : List (UInt8 × Nat) → Rig β → List (Crossing β) × Rig β
  | [], r => ([], r)
  | (o, k) :: l, r =>
    let moved := way.move c k o r
    let rest := way.moves c l moved.2
    (moved.1 :: rest.1, rest.2)

theorem arrived_move (way : UnitWay) (c : Channel) (k : Nat) (o : UInt8) (r : Rig β) :
    (way.move c k o r).1.arrived = (way.move c k o r).2.buses := by
  cases way <;> rfl

/-- Bytes that are moved leave the buses as the last one does. -/
theorem arrived_moves (way : UnitWay) (c : Channel) (l : List (UInt8 × Nat)) (r : Rig β) :
    (way.moves c l r).2.buses = ((way.moves c l r).1.map Crossing.arrived).getLastD r.buses := by
  induction l generalizing r with
  | nil => rfl
  | cons p l ih =>
      rw [moves, List.map_cons, List.getLastD_cons, arrived_move]
      exact ih _

theorem moves_snd (way : UnitWay) (c : Channel) (r : Rig β) :
    (way.moves c c.mode.offsets.zipIdx r).2 =
      r.forUnit c.mode (fun k o r => (way.move c k o r).2) := by
  unfold Rig.forUnit
  generalize c.mode.offsets.zipIdx = l
  induction l generalizing r with
  | nil => rfl
  | cons p l ih => exact ih _

end

/-- What moving a byte keeps, and tells of it as long as that is kept, is told of all bytes of a
unit. -/
theorem moves_induction {way : UnitWay} {c : Channel} {P : Rig Board → Prop}
    {Q : Crossing Board → Prop}
    (hmove : ∀ k o r, k < c.mode.size → P r → Q (way.move c k o r).1 ∧ P (way.move c k o r).2)
    {r : Rig Board} (h : P r) : ∀ b ∈ (way.moves c c.mode.offsets.zipIdx r).1, Q b := by
  have hk : ∀ p ∈ c.mode.offsets.zipIdx, p.2 < c.mode.size := fun _ => Rig.lt_size_of_mem_zipIdx
  generalize c.mode.offsets.zipIdx = l at hk ⊢
  induction l generalizing r with
  | nil => exact List.forall_mem_nil _
  | cons p l ih =>
      obtain ⟨hbyte, hmoved⟩ := hmove p.2 p.1 r (hk p List.mem_cons_self) h
      exact List.forall_mem_cons.mpr
        ⟨hbyte, ih hmoved fun q hq => hk q (List.mem_cons_of_mem p hq)⟩

end UnitWay

namespace Rig

variable {β : Type} [Buses β]

/-- The rig in the turn of channel `i`, when it has asked for direct access. -/
def inTurn (r : Rig β) (i : ChannelId) : Rig β :=
  ((r.setWorkRamTaken false).setCurrent i).refreshCache i

/-- The rig when the first byte of a unit of channel `i` is to move. -/
def unitReady (r : Rig β) (i : ChannelId) (c : Channel) : Rig β :=
  let s := r.pointSprites c
  match c.way with
  | .collecting | .straddling => s.setCache i none
  | .mapped | .direct _ => s.setWorkRamTaken (isWorkRam c.lineBank c.lineOffset)

/-- The crossings in the turn of channel `i`, with the rig behind them. -/
def unitMoves (r : Rig β) (i : ChannelId) : List (Crossing β) × Rig β :=
  let s := r.inTurn i
  let c := s.channel i
  if c.pending then c.way.moves c c.mode.offsets.zipIdx (s.unitReady i c) else ([], s)

/-- The crossings in the turn of channel `i`. -/
def crossings (r : Rig β) (i : ChannelId) : List (Crossing β) := (r.unitMoves i).1

/-- A turn is made of its crossings; then the direct access moves on. -/
theorem buses_unitMoves (r : Rig β) (i : ChannelId) :
    (r.sendInTurn i).buses = (r.unitMoves i).2.buses := by
  have hturn : r.sendInTurn i = ((r.setWorkRamTaken false).setCurrent i).sendUnit i := rfl
  rw [hturn, sendUnit_eq]
  unfold unitMoves inTurn
  dsimp only
  generalize ((r.setWorkRamTaken false).setCurrent i).refreshCache i = s
  generalize s.channel i = c
  unfold unitReady Channel.way
  cases c.pending with
  | false => rfl
  | true =>
      rw [Bool.not_true, if_neg Bool.false_ne_true, if_pos rfl, UnitWay.moves_snd]
      by_cases hreverse : c.control.reverse = true
      · rw [if_pos hreverse, if_pos hreverse]
        rfl
      rw [if_neg hreverse, if_neg hreverse]
      by_cases hend : c.unitReachesBlockEnd = true
      · rw [if_pos hend, if_pos hend]
        rfl
      rw [if_neg hend, if_neg hend]
      cases c.cache <;> rfl

/-- A turn leaves the buses as its last crossing does, or if it has none, as the search for direct
access does. -/
theorem buses_sendInTurn (r : Rig β) (i : ChannelId) :
    (r.sendInTurn i).buses =
      ((r.crossings i).map Crossing.arrived).getLastD (r.inTurn i).buses := by
  rw [buses_unitMoves]
  unfold crossings unitMoves
  dsimp only
  generalize (r.inTurn i).channel i = c
  cases c.pending with
  | false => rfl
  | true =>
      rw [if_pos rfl, UnitWay.arrived_moves]
      -- A unit has a byte at least, so it does not matter what the buses are ahead of it.
      obtain ⟨p, l, hunit⟩ : ∃ p l, c.mode.offsets.zipIdx = p :: l := by
        cases c.mode <;> exact ⟨_, _, rfl⟩
      rw [hunit]
      rfl

end Rig

/-- What is true of a reading of the buses is true of that of the rig. -/
theorem Rig.of_read {β : Type} [Buses β] {P : UInt8 → β → Prop} {r : Rig β} {a : Address}
    (h : P (Buses.read a r.buses).1 (Buses.read a r.buses).2) :
    P (r.read a).1 (r.read a).2.buses := h

/-- Reading memory shows what its cell holds, and leaves it there. -/
theorem Rig.read_cell {r : Rig Board} {a : Address} {bank : UInt8} {o : UInt16} {n : Nat}
    (ha : a = .of bank o) (hn : cellAt bank o = some n) :
    (r.read a).1 = (r.read a).2.buses.memory.get n := by
  subst ha
  exact Rig.of_read (P := fun v (b : Board) => v = b.memory.get n)
    (Board.read_cell ((Region.cell?_of bank o).trans hn) r.buses)

namespace UnitWay

/-- On the ways inside a block the board is told once for the whole unit. -/
def Told (c : Channel) (r : Rig Board) : UnitWay → Prop
  | mapped | direct _ =>
    positionInBlock c.lineOffset + c.mode.size < blockSize ∧
      r.buses.workRamTaken = isWorkRam c.lineBank c.lineOffset
  | _ => True

/-- The place of byte `k` is as far into work RAM as that of the first, if they are in one block. -/
theorem isWorkRam_add {c : Channel} {k : Nat}
    (hinside : positionInBlock c.lineOffset + c.mode.size < blockSize) (hk : k < c.mode.size) :
    isWorkRam c.lineBank (c.lineOffset + UInt16.ofNat k) = isWorkRam c.lineBank c.lineOffset := by
  refine isWorkRam_of_sameBlock ?_ c.lineBank
  have ho := c.lineOffset.toNat_lt
  simp only [positionInBlock, blockSize] at hinside
  simp only [SameBlock, blockSize, UInt16.toNat_add, UInt16.toNat_ofNat']
  omega

/-- A byte that is sent for the port obeys what the board was told, which is still true of it
afterwards. -/
theorem obeys_send (c : Channel) (k : Nat) (o : UInt8) (direct : Option Pointer) (v : UInt8)
    {r : Rig Board} {taken : Bool} (htaken : r.buses.workRamTaken = taken) :
    ((send c k o direct v r).1.register = 0x2180 → (send c k o direct v r).1.Obeys taken) ∧
      (send c k o direct v r).2.buses.workRamTaken = taken := by
  have hkept := Rig.taken_writeRegister Board.heeds r (c.register o) v
  refine ⟨fun hport => ?_, hkept.trans htaken⟩
  have hregister : c.register o = 0x2180 := hport
  unfold send
  rw [hregister, ← htaken]
  exact Board.obeys_writeRegister _ _ _ _ _

theorem obeys_move (way : UnitWay) {c : Channel} {k : Nat} (o : UInt8) {r : Rig Board}
    (hk : k < c.mode.size) (htold : way.Told c r) :
    ((way.move c k o r).1.register = 0x2180 → (way.move c k o r).1.Obeys
        (isWorkRam (way.move c k o r).1.bank (way.move c k o r).1.offset)) ∧
      way.Told c (way.move c k o r).2 := by
  cases way with
  | collecting =>
      refine ⟨fun hport => ?_, trivial⟩
      have hregister : c.register o = 0x2180 := hport
      unfold move
      dsimp only
      rw [hregister]
      exact Board.obeys_readRegister _ _ _
        (r.setWorkRamTaken (isWorkRam c.lineBank (c.lineOffset + UInt16.ofNat k))).buses
  | straddling => exact ⟨(obeys_send c k o none _ (Rig.taken_read Board.heeds _ _)).1, trivial⟩
  | mapped =>
      obtain ⟨hinside, htaken⟩ := htold
      obtain ⟨hsent, htold⟩ := obeys_send c k o none _
        ((Rig.taken_read Board.heeds r
          (Address.of c.lineBank c.lineOffset + UInt32.ofNat k)).trans htaken)
      rw [← isWorkRam_add hinside hk] at hsent
      exact ⟨hsent, hinside, htold⟩
  | direct p =>
      obtain ⟨hinside, htaken⟩ := htold
      have hpeeked := (Rig.taken_peek Board.heeds r (p.offset (UInt64.ofNat k))).trans htaken
      unfold move
      dsimp only
      generalize r.peek (p.offset (UInt64.ofNat k)) = got at hpeeked ⊢
      have hfloating : (if k + 1 = c.mode.size ∧ c.mode.isAlternating then
          got.2.modifyBuses (Buses.setOpenBus got.1) else got.2).buses.workRamTaken =
            isWorkRam c.lineBank c.lineOffset := by
        split
        · exact (Rig.taken_setOpenBus Board.heeds got.2 got.1).trans hpeeked
        · exact hpeeked
      obtain ⟨hsent, htold⟩ := obeys_send c k o (some (p.offset (UInt64.ofNat k))) got.1 hfloating
      rw [← isWorkRam_add hinside hk] at hsent
      exact ⟨hsent, hinside, htold⟩

theorem fetched_send {c : Channel} {k : Nat} {o : UInt8} {direct : Option Pointer} {v : UInt8}
    {r : Rig Board} (h : ∀ n, (send c k o direct v r).1.cell = some n → v = r.buses.memory.get n) :
    (send c k o direct v r).1.Fetched := fun _ => h

/-- A byte is sent from its cell. -/
theorem fetched_move (way : UnitWay) {c : Channel} {k : Nat} (o : UInt8) {r : Rig Board}
    (hk : k < c.mode.size) (htold : way.Told c r) : (way.move c k o r).1.Fetched := by
  cases way with
  | collecting => exact nofun
  | straddling => exact fetched_send fun n hn => Rig.read_cell rfl hn
  | mapped =>
      obtain ⟨hinside, -⟩ := htold
      exact fetched_send fun n hn => Rig.read_cell (Address.of_add_ofNat (by omega)) hn
  | direct p =>
      refine fetched_send fun n hn => ?_
      cases hn
      split <;> rfl

/-- Unless direct access leads astray, a byte lies where its channel says. -/
theorem settled_move (way : UnitWay) {c : Channel} {k : Nat} (o : UInt8) {r : Rig Board}
    (hk : k < c.mode.size) (htold : way.Told c r)
    (hdirect : ∀ p, way = .direct p → Board.Points p c.lineBank c.lineOffset) :
    (way.move c k o r).1.Settled := by
  cases way with
  | direct p =>
      obtain ⟨hinside, -⟩ := htold
      exact Board.cell_of_points (Board.reaching_points.moved (by omega) (hdirect p rfl))
  | _ => rfl

end UnitWay

namespace Rig

/-- When the first byte of a unit is to move, the board has been told of work RAM if it is to be
told once. -/
theorem told_unitReady (r : Rig Board) (i : ChannelId) (c : Channel) :
    c.way.Told c (r.unitReady i c) := by
  unfold unitReady Channel.way
  by_cases hreverse : c.control.reverse = true
  · rw [if_pos hreverse]
    trivial
  rw [if_neg hreverse]
  by_cases hend : c.unitReachesBlockEnd = true
  · rw [if_pos hend]
    trivial
  rw [if_neg hend]
  have hinside : positionInBlock c.lineOffset + c.mode.size < blockSize := by
    simpa [Channel.unitReachesBlockEnd] using hend
  cases c.cache with
  | none => exact ⟨hinside, rfl⟩
  | some p => exact ⟨hinside, rfl⟩

/-- What is true of moving a byte of a unit is true of the crossings of a turn. -/
theorem crossings_induction {r : Rig Board} {i : ChannelId} {Q : Crossing Board → Prop}
    (hmove : ∀ c, c = (r.inTurn i).channel i → ∀ k o s, k < c.mode.size → c.way.Told c s →
      Q (c.way.move c k o s).1) :
    ∀ b ∈ r.crossings i, Q b := by
  unfold crossings unitMoves
  dsimp only
  generalize hc : (r.inTurn i).channel i = c
  split
  · exact UnitWay.moves_induction (P := fun s => c.way.Told c s)
      (fun k o s hk htold =>
        ⟨hmove c hc.symm k o s hk htold, (c.way.obeys_move o hk htold).2⟩)
      ((r.inTurn i).told_unitReady i c)
  · exact List.forall_mem_nil _

theorem sound_crossings (r : Rig Board) (i : ChannelId) : ∀ b ∈ r.crossings i, b.Sound :=
  crossings_induction fun c _ _ o _ hk htold =>
    ⟨c.way.fetched_move o hk htold, (c.way.obeys_move o hk htold).1⟩

/-- In the turn of a fresh channel, all bytes lie where it says. -/
theorem settled_crossings {r : Rig Board} {i : ChannelId} (hf : (r.channel i).Fresh) :
    ∀ b ∈ r.crossings i, b.Settled := by
  have hfresh : ((r.inTurn i).channel i).Cached Board.Points :=
    cached_refreshCache Board.reaching_points (r := (r.setWorkRamTaken false).setCurrent i) trivial
      hf
  refine crossings_induction fun c hc k o s hk htold => ?_
  rw [← hc] at hfresh
  refine c.way.settled_move o hk htold fun p hp => hfresh p ?_
  unfold Channel.way at hp
  split at hp
  · cases hp
  split at hp
  · cases hp
  · split at hp
    · cases hp
    · rename_i hcache
      cases hp
      exact hcache

end Rig

end DmaController
