import DmaController.ChannelMask

/-! # What the controller is doing

While a transfer runs, the controller keeps a record of it: which kind of transfer, on which
channel, and whether work RAM is in use on the A-bus.  A line transfer that runs inside a general
one leaves behind the set of its channels, for the general transfer to find. -/

namespace DmaController

/-- The state of the controller's work. -/
structure Activity where
  /-- A general transfer is running. -/
  inTransfer : Bool
  /-- A line transfer is running. -/
  inLine : Bool
  /-- A transfer of either kind is running. -/
  busy : Bool
  /-- The transfer uses work RAM on the A-bus, so the work RAM port cannot answer. -/
  workRamTaken : Bool
  /-- The number of the channel at work. -/
  current : Option UInt8
  /-- The channels of the last line transfer that ran inside a general one. -/
  ranInside : ChannelMask
deriving DecidableEq, Repr

/-- Nothing runs. -/
def Activity.idle : Activity := ⟨false, false, false, false, none, ∅⟩

instance : Inhabited Activity := ⟨.idle⟩

/-- A field of a record that can be read, set and taken. -/
structure Latch (σ α : Type) where
  get : σ → α
  set : α → σ → σ

/-- Reads a field and leaves its resting value behind. -/
def Latch.take {σ α : Type} [Inhabited α] (l : Latch σ α) (s : σ) : α × σ :=
  (l.get s, l.set default s)

namespace Activity

/-- Access to `inTransfer`. -/
def transferLatch : Latch Activity Bool := ⟨inTransfer, fun v a => { a with inTransfer := v }⟩

/-- Access to `inLine`. -/
def lineLatch : Latch Activity Bool := ⟨inLine, fun v a => { a with inLine := v }⟩

/-- Access to `busy`. -/
def busyLatch : Latch Activity Bool := ⟨busy, fun v a => { a with busy := v }⟩

/-- Access to `workRamTaken`. -/
def workRamLatch : Latch Activity Bool := ⟨workRamTaken, fun v a => { a with workRamTaken := v }⟩

/-- Access to `current`. -/
def currentLatch : Latch Activity (Option UInt8) := ⟨current, fun v a => { a with current := v }⟩

/-- Access to `ranInside`. -/
def insideLatch : Latch Activity ChannelMask := ⟨ranInside, fun v a => { a with ranInside := v }⟩

end Activity

end DmaController
