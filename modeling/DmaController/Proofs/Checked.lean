import DmaController.Controller
import DmaController.Proofs.Steady

/-! # Accesses that look at their bounds

Memories here have a byte in every cell, differences of numbers stop at zero, and the place in a
unit is looked up with a byte to fall back on.  What is real has ends: arrays of a fixed size, and
differences that have to be numbers.  The functions of this module fail, with `none`, where an
access would leave the array it is meant for or a difference would not be one; where they succeed,
they give what the others give.

Channels are numbered by `ChannelId`, which has no ninth value; where a number is made from an
address, it is looked up in the row of channels. -/

namespace DmaController

/-- The difference of two numbers, the second of which is not the greater. -/
def sub? (m n : Nat) : Option Nat := if n ≤ m then some (m - n) else none

theorem sub?_of_le {m n : Nat} (h : n ≤ m) : sub? m n = some (m - n) := if_pos h

/-! ### Memories of a fixed size -/

namespace Memory

/-- The byte in cell `a` of a memory that has `size` cells. -/
def get? (m : Memory) (size a : Nat) : Option UInt8 := if a < size then some (m.get a) else none

/-- The memory that has `size` cells, with `v` in cell `a`. -/
def set? (m : Memory) (size a : Nat) (v : UInt8) : Option Memory :=
  if a < size then some (m.set a v) else none

/-- Stores bytes one after the other in a memory that has `size` cells. -/
def load? (m : Memory) (size start : Nat) : List UInt8 → Option Memory
  | [] => some m
  | v :: vs => (m.set? size (start % 0x1000000) v).bind (load? · size (start + 1) vs)

variable {m : Memory} {size : Nat}

theorem get?_of_lt {a : Nat} (h : a < size) : m.get? size a = some (m.get a) := if_pos h

theorem set?_of_lt {a : Nat} (h : a < size) (v : UInt8) : m.set? size a v = some (m.set a v) :=
  if_pos h

theorem load?_of_lt {start : Nat} {bytes : List UInt8}
    (h : ∀ k < bytes.length, (start + k) % 0x1000000 < size) :
    m.load? size start bytes = some (m.load start bytes) := by
  induction bytes generalizing m start with
  | nil => rfl
  | cons v vs ih =>
      have hfirst : start % 0x1000000 < size := h 0 (Nat.zero_lt_succ _)
      have hrest : ∀ k < vs.length, (start + 1 + k) % 0x1000000 < size := by
        intro k hk
        have := h (k + 1) (by simpa using hk)
        rwa [Nat.add_assoc, Nat.add_comm 1 k]
      rw [load?, set?_of_lt hfirst, Option.bind_some, ih hrest]
      rfl

end Memory

/-! ### The decoder -/

namespace StreamDecoder

/-- The decoded byte at a position. -/
def byte? (d : StreamDecoder) (position : UInt16) : Option UInt8 :=
  d.decoded.get? capacity position.toNat

/-- Puts bytes at the front of the decoded bytes, as many as can be held. -/
def hold? (d : StreamDecoder) (bytes : List UInt8) : Option StreamDecoder :=
  (d.decoded.load? capacity 0 (bytes.take capacity)).map fun decoded =>
    { d with decoded := decoded }

theorem byte?_eq (d : StreamDecoder) (position : UInt16) :
    d.byte? position = some (d.byte position) := Memory.get?_of_lt position.toNat_lt

theorem hold?_eq (d : StreamDecoder) (bytes : List UInt8) :
    d.hold? bytes = some (d.hold bytes) := by
  have hfits : ∀ k < (bytes.take capacity).length, (0 + k) % 0x1000000 < capacity := by
    intro k hk
    have hlength := List.length_take_le capacity bytes
    rw [Nat.zero_add]
    exact Nat.lt_of_le_of_lt (Nat.mod_le _ _) (by omega)
  rw [hold?, Memory.load?_of_lt hfits]
  rfl

end StreamDecoder

/-! ### Channels -/

namespace Controller

/-- The channel with a number. -/
def channel? (k : Controller) (n : Nat) : Option Channel := k.channels[n]?

/-- What the processor reads from a register; `none` inside where nothing answers. -/
def readRegister? (k : Controller) (a : UInt16) : Option (Option UInt8) :=
  if isChannelRegister a then
    (k.channel? (a.toNat / 0x10 % 8)).map (·.readRegister a.toNat)
  else some none

/-- The processor writes a channel register. -/
def writeChannelRegister? (k : Controller) (a : UInt16) (v : UInt8) : Option Controller :=
  let n := a.toNat / 0x10 % 8
  (k.channel? n).bind fun c =>
    if h : n < 8 then some { k with channels := k.channels.set n (c.writeRegister a.toNat v) h }
    else none

theorem channel?_eq (k : Controller) (i : ChannelId) : k.channel? i.val = some (k.channel i) :=
  Vector.getElem?_eq_getElem i.isLt

theorem readRegister?_eq (k : Controller) (a : UInt16) :
    k.readRegister? a = some (k.readRegister a) := by
  have hchannel : k.channel? (a.toNat / 0x10 % 8) = some (k.channel (channelOf a)) :=
    k.channel?_eq (channelOf a)
  unfold readRegister? readRegister
  split
  · rw [hchannel]
    rfl
  · rfl

theorem writeChannelRegister?_eq (k : Controller) (a : UInt16) (v : UInt8) :
    k.writeChannelRegister? a v = some (k.writeChannelRegister a v) := by
  have hchannel : k.channel? (a.toNat / 0x10 % 8) = some (k.channel (channelOf a)) :=
    k.channel?_eq (channelOf a)
  unfold writeChannelRegister?
  dsimp only
  rw [hchannel, Option.bind_some, dif_pos (Nat.mod_lt _ (by decide))]
  rfl

end Controller

/-! ### Units and blocks -/

/-- The register of the next byte, counted from the channel's first register. -/
def UnitCursor.offset? (u : UnitCursor) : Option UInt8 := u.mode.offsets[u.step]?

theorem UnitCursor.offset?_of_lt {u : UnitCursor} (h : u.step < u.mode.size) :
    u.offset? = some u.offset := by
  unfold offset? offset
  rw [List.getD_eq_getElem?_getD, List.getElem?_eq_getElem h]
  rfl

end DmaController
