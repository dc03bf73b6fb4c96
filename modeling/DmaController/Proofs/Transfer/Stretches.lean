import DmaController.Proofs.Rig
import DmaController.Proofs.Steady
import DmaController.Transfer.Byte

/-! # Stretches of a transfer

A sending transfer opens its source in stretches.  `Closes` ties the bytes left in a stretch to the
position in the source: they end exactly with the block of that position, in the direction of the
step.  It holds of the first stretch (`closes_firstStretch`), is kept from byte to byte
(`Closes.step`) and lets the next stretch be a whole block (`Closes.reopen`); a byte that is not
the last of its stretch is followed by one in the same block (`Closes.sameBlock`).  So the bytes of
a stretch lie in the block at which it was opened (`Transfer.InBlock`).

`Stretch.Sound` is what a stretch promises while the position is in its block: the source shows the
memory there, and the word on work RAM is the right one.  It depends on the block of the position
alone (`Stretch.Sound.congr`), so it lasts as long as the stretch.  The route is the ordinary one or
that chosen for the channel (`Stretch.Routed`), and either leads to the register a byte is for. -/

namespace DmaController

namespace AddressStep

/-- `left` bytes from an offset on end where its block ends, in the direction of a step; no bytes
are left where the offset has just entered a block.  A step that stays put never leaves one. -/
def Closes : AddressStep → UInt16 → Nat → Prop
  | hold, _, _ => True
  | up, o, left => left ≤ blockSize ∧ (o.toNat + left) % blockSize = 0
  | down, o, left => left ≤ blockSize ∧ (o.toNat + 1) % blockSize = left % blockSize

theorem Closes.step {a : AddressStep} {o : UInt16} {left : Nat} (h : a.Closes o (left + 1)) :
    a.Closes (o + a.word) left := by
  have ho := o.toNat_lt
  cases a with
  | hold => trivial
  | up =>
      simp only [Closes, word, blockSize, UInt16.toNat_add, UInt16.reduceToNat] at h ⊢
      omega
  | down =>
      simp only [Closes, word, blockSize, UInt16.toNat_add, UInt16.reduceToNat] at h ⊢
      omega

theorem Closes.sameBlock {a : AddressStep} {o : UInt16} {left : Nat}
    (h : a.Closes o (left + 2)) : SameBlock (o + a.word) o := by
  have ho := o.toNat_lt
  cases a with
  | hold => simp [SameBlock, word]
  | up =>
      simp only [Closes, word, blockSize, SameBlock, UInt16.toNat_add, UInt16.reduceToNat] at h ⊢
      omega
  | down =>
      simp only [Closes, word, blockSize, SameBlock, UInt16.toNat_add, UInt16.reduceToNat] at h ⊢
      omega

theorem Closes.reopen {a : AddressStep} {o : UInt16} (h : a.Closes o 0) :
    a.Closes o blockSize := by
  cases a with
  | hold => trivial
  | up =>
      simp only [Closes, blockSize] at h ⊢
      omega
  | down =>
      simp only [Closes, blockSize] at h ⊢
      omega

end AddressStep

theorem Transfer.closes_firstStretch (t : Transfer) (o : UInt16) :
    t.channel.control.step.Closes o (t.firstStretch o) := by
  have hp := positionInBlock_lt o
  unfold Transfer.firstStretch Control.step
  by_cases hf : t.channel.control.fixed = true
  · simp only [hf, if_true]
    trivial
  · by_cases hd : t.channel.control.decrement = true
    · simp only [hf, hd, if_true, AddressStep.Closes, positionInBlock, blockSize] at hp ⊢
      simp only [Bool.false_eq_true, if_false]
      omega
    · simp only [hf, hd, AddressStep.Closes, positionInBlock, blockSize] at hp ⊢
      simp only [Bool.false_eq_true, if_false]
      omega

/-- An address that does not move has the whole transfer in its first stretch. -/
theorem Transfer.length_le_firstStretch (t : Transfer) (o : UInt16)
    (hhold : t.channel.control.step = .hold) : t.channel.length ≤ t.firstStretch o := by
  unfold Control.step at hhold
  unfold Transfer.firstStretch
  by_cases hf : t.channel.control.fixed = true
  · exact Nat.le_of_eq (if_pos hf).symm
  · rw [if_neg hf] at hhold
    by_cases hd : t.channel.control.decrement = true
    · rw [if_pos hd] at hhold
      cases hhold
    · rw [if_neg hd] at hhold
      cases hhold

/-- From a position on, `left` bytes are left in the block of the offset at which it was opened. -/
structure Transfer.InBlock (t : Transfer) (opened position : UInt16) (left : Nat) : Prop where
  closes : t.step.Closes position left
  inside : 0 < left → SameBlock opened position

namespace Transfer.InBlock

variable {t : Transfer} {opened position : UInt16} {left : Nat}

theorem step (h : t.InBlock opened position (left + 1)) :
    t.InBlock opened (position + t.step.word) left := by
  refine ⟨h.closes.step, fun hleft => ?_⟩
  obtain ⟨k, rfl⟩ : ∃ k, left = k + 1 := ⟨left - 1, by omega⟩
  exact (h.inside (Nat.zero_lt_succ _)).trans h.closes.sameBlock.symm

theorem reopen (h : t.InBlock opened position 0) : t.InBlock position position blockSize :=
  ⟨h.closes.reopen, fun _ => rfl⟩

end Transfer.InBlock

/-! ### Sound stretches -/

/-- A stretch shows a bank of the memory `M` in the block of a position, and knows whether that
block is work RAM. -/
structure Stretch.Sound {β : Type} [Buses β] (M : Address → UInt8) (good : β → Prop)
    (bank : UInt8) (position : UInt16) (s : Stretch) : Prop where
  taken : s.taken = isWorkRam bank position
  source : s.source = .mapped ∨ ∃ base, s.source = .block base ∧
    ∀ {b : β} {o : UInt16}, good b → SameBlock position o →
      (Buses.peek (base.offset o.toUInt64) b).1 = M (.of bank o)

/-- The route of a stretch is the ordinary one or that chosen for a channel. -/
def Stretch.Routed (c : Channel) (s : Stretch) : Prop :=
  s.route = .ordinary ∨ ∃ remapped, s.route = Route.choose c.mode c.port remapped

/-! ### Where a stretch leads -/

namespace UnitMode

theorem offset_of_isSingle {m : UnitMode} (h : m.isSingle = true) (k : Nat) :
    m.offsets.getD k 0 = 0 := by
  cases m <;> simp only [isSingle, Bool.false_eq_true] at h <;>
    rcases k with _ | _ | k <;> rfl

theorem offset_of_isAlternating {m : UnitMode} (h : m.isAlternating = true) (k : Nat) :
    m.offsets.getD k 0 = 0 ∨ m.offsets.getD k 0 = 1 := by
  cases m <;> simp only [isAlternating, Bool.false_eq_true] at h <;>
    rcases k with _ | _ | _ | _ | k <;> simp [offsets]

end UnitMode

/-- The registers to which a byte goes that is meant for `register`, at `offset` from the first. -/
def Route.registers (route : Route) (register : UInt16) (offset : UInt8) (taken : Bool) :
    List UInt16 :=
  match route with
  | ordinary => [register]
  | sprite => [0x2104]
  | video high _ => [if high then 0x2119 else 0x2118]
  | videoPair _ => [if offset == 1 then 0x2119 else 0x2118]
  | colour => [0x2122]
  | workRam => if taken then [] else [0x2180]

/-- Whatever route is chosen for a channel, it leads to the register that a byte is meant for, as
long as work RAM is not in use. -/
theorem Route.registers_choose (c : Channel) (remapped : Bool) (k : Nat) :
    (choose c.mode c.port remapped).registers (c.register (c.mode.offsets.getD k 0))
      (c.mode.offsets.getD k 0) false = [c.register (c.mode.offsets.getD k 0)] := by
  unfold choose
  by_cases hsingle : c.mode.isSingle = true
  · -- All bytes go to the first register, which may have an entrance of its own.
    have hregister : ∀ {port : UInt8} {a : UInt16}, c.port = port →
        0x2100 + port.toUInt16 + (0 : UInt8).toUInt16 = a → c.register 0 = a := by
      intro port a hp ha
      rw [Channel.register, hp, ha]
    rw [if_pos hsingle, UnitMode.offset_of_isSingle hsingle]
    by_cases h04 : c.port = 0x04
    · rw [if_pos h04, hregister h04 rfl]
      rfl
    by_cases h18 : c.port = 0x18
    · rw [if_neg h04, if_pos h18, hregister h18 rfl]
      rfl
    by_cases h19 : c.port = 0x19
    · rw [if_neg h04, if_neg h18, if_pos h19, hregister h19 rfl]
      rfl
    by_cases h22 : c.port = 0x22
    · rw [if_neg h04, if_neg h18, if_neg h19, if_pos h22, hregister h22 rfl]
      rfl
    rw [if_neg h04, if_neg h18, if_neg h19, if_neg h22]
    by_cases h80 : c.port = 0x80
    · rw [if_pos h80, hregister h80 rfl]
      rfl
    · rw [if_neg h80]
      rfl
  · rw [if_neg hsingle]
    by_cases hpair : c.mode.isAlternating = true ∧ c.port = 0x18
    · rw [if_pos hpair, Channel.register, hpair.2]
      rcases UnitMode.offset_of_isAlternating hpair.1 k with ho | ho <;> rw [ho] <;> rfl
    · rw [if_neg hpair]
      rfl

theorem Stretch.Routed.registers {c : Channel} {s : Stretch} (h : s.Routed c) (k : Nat) :
    s.route.registers (c.register (c.mode.offsets.getD k 0)) (c.mode.offsets.getD k 0) false =
      [c.register (c.mode.offsets.getD k 0)] := by
  rcases h with hordinary | ⟨remapped, hchosen⟩
  · rw [hordinary]
    rfl
  · rw [hchosen]
    exact Route.registers_choose c remapped k

/-! ### Opening a stretch -/

variable {β : Type} [Buses β] {M : Address → UInt8} {good : β → Prop}

/-- A block that is open to direct access is read directly, and any other through the memory map. -/
theorem Transfer.source_openStretch (t : Transfer) (o : UInt16) (left : Nat) (r : Rig β) :
    (t.openStretch o left r).1.source =
      (Buses.blockPointer (.of t.channel.bank o) r.buses).1.elim .mapped Source.block := by
  have hp : (r.blockPointer (.of t.channel.bank o)).1 =
      (Buses.blockPointer (.of t.channel.bank o) r.buses).1 := rfl
  rw [← hp]
  unfold Transfer.openStretch
  rcases r.blockPointer (.of t.channel.bank o) with ⟨_ | base, r'⟩
  · rfl
  · rfl

theorem Transfer.routed_openStretch (t : Transfer) (o : UInt16) (left : Nat) (r : Rig β) :
    (t.openStretch o left r).1.Routed t.channel := by
  unfold Transfer.openStretch
  rcases r.blockPointer (.of t.channel.bank o) with ⟨_ | base, r'⟩
  · exact .inl rfl
  · exact .inr ⟨_, rfl⟩

theorem Stretch.Sound.congr {bank : UInt8} {o o' : UInt16} {s : Stretch}
    (h : s.Sound M good bank o) (ho : SameBlock o' o) (left : Nat) :
    Stretch.Sound M good bank o' { s with left := left } := by
  obtain ⟨ht, hs⟩ := h
  refine ⟨ht.trans (isWorkRam_of_sameBlock ho.symm bank), ?_⟩
  rcases hs with hs | ⟨base, hs, hpeek⟩
  · exact .inl hs
  · exact .inr ⟨base, hs, fun hb hsame => hpeek hb (ho.symm.trans hsame)⟩

end DmaController
