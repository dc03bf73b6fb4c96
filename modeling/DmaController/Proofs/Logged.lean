import DmaController.Proofs.Traced

/-! # A log of what reaches the buses

`Logged β` notes of the requests to buses of type `β` those that are felt outside the controller:
writes to either bus, reads of registers, and what is said about work RAM and the sprite table.
All requests are passed on as they come, words and the entrances of single registers included, so
a log may be put in front of any buses.  A write through an entrance of its own is noted as a
write to the register it stands for.

Looking at memory is felt by nobody and may go one way or the other, so it is noted apart from
that (`Look`): what was read through the memory map, which pointers were given out for which
addresses, and which of them were looked behind. -/

namespace DmaController

/-- A look at memory, or a pointer given out to look there later. -/
inductive Look where
  | read (a : Address)
  | word (a : Address)
  | block (a : Address) (p : Option Pointer)
  | byte (a : Address) (p : Option Pointer)
  | peek (p : Pointer)
deriving DecidableEq, Repr

/-- Buses behind a log. -/
structure Logged (β : Type) where
  inner : β
  /-- What was last said about work RAM. -/
  taken : Bool
  /-- What reached the buses so far, in order. -/
  calls : List BusCall
  /-- How memory was looked at so far, in order. -/
  looks : List Look

namespace Logged

variable {β : Type}

/-- An empty log in front of buses. -/
def start (b : β) : Logged β := ⟨b, false, [], []⟩

/-- Other buses behind the same log. -/
def pass (t : Logged β) (b : β) : Logged β := { t with inner := b }

/-- Other buses behind the log with one more entry. -/
def note (t : Logged β) (c : BusCall) (b : β) : Logged β :=
  { t with inner := b, calls := t.calls ++ [c] }

/-- Other buses behind the log with a register write more. -/
def noteRegister (t : Logged β) (a : UInt16) (v : UInt8) (b : β) : Logged β :=
  t.note (.writeRegister a v t.taken) b

/-- Other buses behind the log with one more look at memory. -/
def noteLook (t : Logged β) (l : Look) (b : β) : Logged β :=
  { t with inner := b, looks := t.looks ++ [l] }

instance [Buses β] : Buses (Logged β) where
  read a t :=
    let got := Buses.read a t.inner
    (got.1, t.noteLook (.read a) got.2)
  readWord a t :=
    let got := Buses.readWord a t.inner
    (got.1, t.noteLook (.word a) got.2)
  write a v t := t.note (.write a v) (Buses.write a v t.inner)
  readRegister a t :=
    let got := Buses.readRegister a t.inner
    (got.1, t.note (.readRegister a got.1 t.taken) got.2)
  writeRegister a v t := t.noteRegister a v (Buses.writeRegister a v t.inner)
  blockPointer a t :=
    let got := Buses.blockPointer a t.inner
    (got.1, t.noteLook (.block a got.1) got.2)
  bytePointer a t :=
    let got := Buses.bytePointer a t.inner
    (got.1, t.noteLook (.byte a got.1) got.2)
  peek p t :=
    let got := Buses.peek p t.inner
    (got.1, t.noteLook (.peek p) got.2)
  remapsVideo t := Buses.remapsVideo t.inner
  writeSprite v t := t.noteRegister 0x2104 v (Buses.writeSprite v t.inner)
  writeVideo high remapped v t :=
    t.noteRegister (if high then 0x2119 else 0x2118) v (Buses.writeVideo high remapped v t.inner)
  writeColour v t := t.noteRegister 0x2122 v (Buses.writeColour v t.inner)
  writeWorkRam v t := t.noteRegister 0x2180 v (Buses.writeWorkRam v t.inner)
  setOpenBus v t := t.pass (Buses.setOpenBus v t.inner)
  setWorkRamTaken taken t :=
    { t.note (.setWorkRamTaken taken) (Buses.setWorkRamTaken taken t.inner) with taken := taken }
  setSpriteAddress a t := t.note (.setSpriteAddress a) (Buses.setSpriteAddress a t.inner)

end Logged

end DmaController
