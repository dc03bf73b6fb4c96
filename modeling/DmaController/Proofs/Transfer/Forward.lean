import DmaController.Console.Beam
import DmaController.Proofs.Recorder
import DmaController.Proofs.Transfer.Poised
import DmaController.Proofs.Transfer.Stretches

/-! # A sending transfer against its reference

The reference of a transfer to the registers goes byte by byte: byte `k` comes from
`bank:(address + k * step)`, modulo 2^16, and goes to the register `offsets[k mod size]` places
behind the first; what is meant for the work RAM port is lost if it comes out of work RAM
(`Channel.arrival`, `Channel.reference`).

The transfer itself opens stretches, takes bytes through pointers or the memory map and has six
routes to the registers.  `Sending` is the invariant of its loop after `k` bytes with `n` to go:
where the channel, the cursor, the position and the stretch stand.  One byte keeps it and serves
exactly its arrival (`Sending.moveByte`), hence a run that no event interrupts serves the whole
reference (`moveBytes_sending`). -/

namespace DmaController

/-- The register write by which a byte arrives, if it does: a byte for the work RAM port is lost
while work RAM is in use. -/
def arriving (a : UInt16) (v : UInt8) (taken : Bool) : List (UInt16 × UInt8) :=
  if a = 0x2180 ∧ taken = true then [] else [(a, v)]

namespace Channel

/-- The offset in the channel's bank from which byte `k` comes. -/
def sourceOffset (c : Channel) (k : Nat) : UInt16 :=
  c.address + UInt16.ofNat k * c.control.step.word

/-- The register to which byte `k` goes. -/
def targetRegister (c : Channel) (k : Nat) : UInt16 :=
  c.register (c.mode.offsets.getD (k % c.mode.size) 0)

/-- The register write by which byte `k` of the memory `M` arrives, if it does. -/
def arrival (c : Channel) (M : Address → UInt8) (k : Nat) : List (UInt16 × UInt8) :=
  arriving (c.targetRegister k) (M (.of c.bank (c.sourceOffset k)))
    (isWorkRam c.bank (c.sourceOffset k))

/-- The register writes of a whole transfer. -/
def reference (c : Channel) (M : Address → UInt8) : List (UInt16 × UInt8) :=
  (List.range c.length).flatMap (c.arrival M)

/-- A channel that has been counted down `k` times, once more. -/
theorem countDown_steps (c : Channel) (a : AddressStep) (k : Nat) :
    countDown { c with
        count := c.count - UInt16.ofNat k
        address := c.address + UInt16.ofNat k * a.word } a =
      { c with
        count := c.count - UInt16.ofNat (k + 1)
        address := c.address + UInt16.ofNat (k + 1) * a.word } := by
  have hcount : c.count - UInt16.ofNat k - 1 = c.count - UInt16.ofNat (k + 1) := by
    simp only [UInt16.ofNat_add, UInt16.sub_eq_add_neg, UInt16.neg_add, UInt16.add_assoc]
    rfl
  rw [countDown, hcount, a.word_succ, ← UInt16.add_assoc]

theorem sourceOffset_succ (c : Channel) (k : Nat) :
    c.sourceOffset (k + 1) = c.sourceOffset k + c.control.step.word := by
  rw [sourceOffset, AddressStep.word_succ, ← UInt16.add_assoc]
  rfl

/-- The channel after `k` bytes of its transfer. -/
def after (c : Channel) (k : Nat) : Channel :=
  { c with count := c.count - UInt16.ofNat k, address := c.sourceOffset k }

theorem after_zero (c : Channel) : c.after 0 = c := by
  simp [after, sourceOffset]

theorem countDown_after (c : Channel) (k : Nat) :
    (c.after k).countDown c.control.step = c.after (k + 1) := c.countDown_steps c.control.step k

theorem count_sub_length (c : Channel) : c.count - UInt16.ofNat c.length = 0 := by
  unfold length
  split
  · rename_i h
    rw [h]
    rfl
  · simp

end Channel

/-! ### The place in the unit -/

theorem UnitCursor.advance_mod (m : UnitMode) (k : Nat) :
    (⟨m, k % m.size⟩ : UnitCursor).advance = ⟨m, (k + 1) % m.size⟩ := by
  have hk := Nat.mod_lt k m.size_pos
  simp only [advance, UnitCursor.mk.injEq, true_and]
  rw [← Nat.mod_add_mod]
  by_cases h : k % m.size + 1 = m.size
  · rw [if_pos h, h, Nat.mod_self]
  · rw [if_neg h, Nat.mod_eq_of_lt (show k % m.size + 1 < m.size by omega)]

/-! ### One byte -/

variable {β : Type} [Buses β] {M : Address → UInt8} {good : β → Prop}

theorem writeRegister_calls (a : UInt16) (v : UInt8) (t : Traced β) :
    Traced.Calls BusCall.served? t (Buses.writeRegister a v t) (arriving a v t.taken) := by
  have e : arriving a v t.taken = (BusCall.served? (.writeRegister a v t.taken)).toList := by
    simp only [arriving, BusCall.served?]
    split <;> rfl
  rw [e]
  exact Traced.Calls.one rfl

/-- Whatever route a byte takes, it arrives at its register, unless that is the work RAM port and
the stretch lies in work RAM. -/
theorem Stretch.deliver_calls {c : Channel} {s : Stretch} (hr : s.Routed c) (k : Nat) (v : UInt8)
    (r : Rig (Traced β)) (ht : r.buses.taken = s.taken) :
    Traced.Calls BusCall.served? r.buses
      (s.route.deliver (c.register (c.mode.offsets.getD k 0)) (c.mode.offsets.getD k 0) v
        s.taken r).buses
      (arriving (c.register (c.mode.offsets.getD k 0)) v s.taken) := by
  have ordinary : ∀ a, Traced.Calls BusCall.served? r.buses (Buses.writeRegister a v r.buses)
      (arriving a v s.taken) := by
    intro a
    rw [← ht]
    exact writeRegister_calls a v r.buses
  have hregister := hr.registers k
  generalize c.register (c.mode.offsets.getD k 0) = a at hregister ⊢
  generalize s.route = route at hregister ⊢
  cases route with
  | ordinary => exact ordinary a
  | sprite =>
      obtain rfl : 0x2104 = a := List.singleton_inj.mp hregister
      exact ordinary 0x2104
  | video high remapped =>
      obtain rfl := List.singleton_inj.mp hregister
      exact ordinary _
  | videoPair remapped =>
      obtain rfl := List.singleton_inj.mp hregister
      unfold Route.deliver
      dsimp only
      split
      · have hfloating : Traced.Calls BusCall.served? r.buses (Buses.setOpenBus v r.buses) [] :=
          Traced.Calls.one (c := .setOpenBus v) rfl
        rw [← ht]
        exact hfloating.trans (writeRegister_calls _ v (Buses.setOpenBus v r.buses))
      · exact ordinary _
  | colour =>
      obtain rfl : 0x2122 = a := List.singleton_inj.mp hregister
      exact ordinary 0x2122
  | workRam =>
      obtain rfl : 0x2180 = a := List.singleton_inj.mp hregister
      have harriving := ordinary 0x2180
      cases hst : s.taken with
      | false => rwa [hst] at harriving
      | true => exact .of_eq rfl

/-- The work of a transfer on the buses takes no time and leaves the controller alone. -/
structure Rig.Moves (good : β → Prop) (r r' : Rig (Traced β)) : Prop where
  keeps : r.Keeps r'
  cycles : r'.cycles = r.cycles
  good : good r.buses.inner → good r'.buses.inner

omit [Buses β] in
theorem Rig.Moves.trans {r r' r'' : Rig (Traced β)} (h : r.Moves good r') (h' : r'.Moves good r'') :
    r.Moves good r'' :=
  ⟨h.keeps.trans h'.keeps, h'.cycles.trans h.cycles, fun hg => h'.good (h.good hg)⟩

section

variable (hs : Steady (fun a => some (M a)) (fun _ => True) good)

include hs

theorem Rig.moves_writeRegister (a : UInt16) (v : UInt8) (r : Rig (Traced β)) :
    r.Moves good (r.writeRegister a v) :=
  ⟨.of_eq rfl, rfl, hs.good_writeRegister v trivial⟩

theorem Rig.moves_setOpenBus (v : UInt8) (r : Rig (Traced β)) :
    r.Moves good (r.modifyBuses (Buses.setOpenBus v)) :=
  ⟨.of_eq rfl, rfl, hs.good_setOpenBus v⟩

theorem Rig.moves_setWorkRamTaken (taken : Bool) (r : Rig (Traced β)) :
    r.Moves good (r.setWorkRamTaken taken) :=
  ⟨(Rig.Keeps.refl r).setWorkRamTaken taken, rfl, hs.good_setWorkRamTaken taken⟩

theorem Route.moves_deliver (route : Route) (a : UInt16) (o v : UInt8) (taken : Bool)
    (r : Rig (Traced β)) : r.Moves good (route.deliver a o v taken r) := by
  cases route with
  | ordinary => exact Rig.moves_writeRegister hs a v r
  | sprite => exact Rig.moves_writeRegister hs 0x2104 v r
  | video high remapped => exact Rig.moves_writeRegister hs _ v r
  | videoPair remapped =>
      unfold Route.deliver
      by_cases h : (o == 1 && !remapped) = true
      · simp only [h, if_true]
        exact (Rig.moves_setOpenBus hs v r).trans (Rig.moves_writeRegister hs _ v _)
      · simp only [h]
        exact Rig.moves_writeRegister hs _ v r
  | colour => exact Rig.moves_writeRegister hs 0x2122 v r
  | workRam =>
      unfold Route.deliver
      cases taken with
      | true => exact ⟨.refl r, rfl, id⟩
      | false => exact Rig.moves_writeRegister hs 0x2180 v r

omit hs in
theorem Route.taken_deliver (route : Route) (a : UInt16) (o v : UInt8) (taken : Bool)
    (r : Rig (Traced β)) : (route.deliver a o v taken r).buses.taken = r.buses.taken := by
  cases route with
  | videoPair remapped =>
      unfold Route.deliver
      by_cases h : (o == 1 && !remapped) = true
      · simp only [h, if_true]
        rfl
      · simp only [h]
        rfl
  | workRam => cases taken <;> rfl
  | _ => rfl

/-- A sound stretch supplies the byte of the memory, and nothing is served by that. -/
theorem Stretch.Sound.fetch {t : Transfer} {position : UInt16} {s : Stretch}
    (hsound : s.Sound M good t.channel.bank position) {r : Rig (Traced β)}
    (hg : good r.buses.inner) :
    (t.fetch s.source position r).1 = M (.of t.channel.bank position) ∧
    Traced.Calls BusCall.served? r.buses (t.fetch s.source position r).2.buses [] ∧
    r.Moves good (t.fetch s.source position r).2 ∧
    (t.fetch s.source position r).2.buses.taken = r.buses.taken := by
  rcases hsound.source with h | ⟨base, h, hpeek⟩
  · rw [h]
    exact ⟨hs.read hg rfl, Traced.Calls.one (c := .read _ _) rfl,
      ⟨.of_eq rfl, rfl, hs.good_read _⟩, rfl⟩
  · rw [h]
    exact ⟨hpeek hg rfl, Traced.Calls.one (c := .peek _ _) rfl,
      ⟨.of_eq rfl, rfl, hs.good_peek _⟩, rfl⟩

/-- A byte sent from a sound stretch arrives as it should. -/
theorem Stretch.Sound.sendByte {t : Transfer} {k : Nat} {position : UInt16} {s : Stretch}
    (hsound : s.Sound M good t.channel.bank position) (hr : s.Routed t.channel)
    {r : Rig (Traced β)} (hg : good r.buses.inner) (ht : r.buses.taken = s.taken) :
    Traced.Calls BusCall.served? r.buses (t.sendByte ⟨t.channel.mode, k⟩ position s r).buses
      (arriving (t.channel.register (t.channel.mode.offsets.getD k 0))
        (M (.of t.channel.bank position)) (isWorkRam t.channel.bank position)) ∧
    r.Moves good (t.sendByte ⟨t.channel.mode, k⟩ position s r) ∧
    (t.sendByte ⟨t.channel.mode, k⟩ position s r).buses.taken = s.taken := by
  obtain ⟨hv, hcalls, hmoves, htaken⟩ := hsound.fetch hs hg
  have hdeliver := s.deliver_calls hr k (t.fetch s.source position r).1
    (t.fetch s.source position r).2 (htaken.trans ht)
  rw [hv, hsound.taken] at hdeliver
  have hbyte : t.sendByte ⟨t.channel.mode, k⟩ position s r =
      s.route.deliver (t.channel.register (t.channel.mode.offsets.getD k 0))
        (t.channel.mode.offsets.getD k 0) (M (.of t.channel.bank position)) s.taken
        (t.fetch s.source position r).2 := by
    rw [← hv]
    rfl
  rw [hbyte]
  refine ⟨?_, hmoves.trans (s.route.moves_deliver hs _ _ _ _ _), ?_⟩
  · rw [hsound.taken]
    exact hcalls.trans hdeliver
  · rw [Route.taken_deliver, htaken, ht]

end

/-! ### The loop -/

/-- A stretch opened in front of a steady memory is sound, and the buses know about work RAM. -/
theorem Transfer.openStretch_spec (hs : SteadyBlocks (fun a => some (M a)) good) (t : Transfer)
    (o : UInt16) (left : Nat) {r : Rig (Traced β)} (hg : good r.buses.inner) :
    let opened := t.openStretch o left r
    opened.1.Sound M good t.channel.bank o ∧ opened.1.Routed t.channel ∧ opened.1.left = left ∧
      Traced.Calls BusCall.served? r.buses opened.2.buses [] ∧ r.Moves good opened.2 ∧
      opened.2.buses.taken = opened.1.taken := by
  have hcalls : Traced.Calls BusCall.served? r.buses (t.openStretch o left r).2.buses [] := by
    have h₁ : Traced.Calls BusCall.served? r.buses
        (r.blockPointer (.of t.channel.bank o)).2.buses [] :=
      Traced.Calls.one (c := .blockPointer (.of t.channel.bank o)) rfl
    exact h₁.trans (Traced.Calls.one (c := .setWorkRamTaken (isWorkRam t.channel.bank o)) rfl)
  have hmoves : r.Moves good (t.openStretch o left r).2 := by
    have h₁ : r.Moves good (r.blockPointer (.of t.channel.bank o)).2 :=
      ⟨.of_eq rfl, rfl, hs.good_blockPointer _⟩
    exact h₁.trans (Rig.moves_setWorkRamTaken hs.toSteady (isWorkRam t.channel.bank o) _)
  have hasked : (Buses.blockPointer (.of t.channel.bank o) r.buses).1 =
      (Buses.blockPointer (.of t.channel.bank o) r.buses.inner).1 := rfl
  refine ⟨⟨rfl, ?_⟩, t.routed_openStretch o left r, rfl, hcalls, hmoves, rfl⟩
  rw [Transfer.source_openStretch, hasked]
  cases hp : (Buses.blockPointer (.of t.channel.bank o) r.buses.inner).1 with
  | none => exact .inl rfl
  | some base => exact .inr ⟨base, rfl, fun hb ho => hs.peek_block hg hp hb ho rfl⟩

/-- Where a sending transfer stands after `k` bytes, with `n` to go. -/
structure Sending (M : Address → UInt8) (good : β → Prop) (t : Transfer) (k n : Nat)
    (place : UnitCursor) (position : UInt16) (s : Stretch) (r : Rig (Traced β)) : Prop where
  steady : good r.buses.inner
  channel_eq : r.channel t.id = t.channel.after k
  place_eq : place = ⟨t.channel.mode, k % t.channel.mode.size⟩
  position_eq : position = t.channel.sourceOffset k
  taken_eq : r.buses.taken = s.taken
  closes : t.channel.control.step.Closes position s.left
  enough : t.channel.control.step = .hold → n ≤ s.left
  sound : 0 < s.left → s.Sound M good t.channel.bank position
  routed : s.Routed t.channel

namespace Sending

variable {t : Transfer} {k n : Nat} {place : UnitCursor} {position : UInt16} {s : Stretch}
  {r : Rig (Traced β)}

/-- Before a byte is sent, its stretch is there. -/
theorem currentStretch (hs : SteadyBlocks (fun a => some (M a)) good)
    (h : Sending M good t k (n + 1) place position s r) :
    ∃ s' r', t.currentStretch s r = (s', r') ∧ Sending M good t k (n + 1) place position s' r' ∧
      0 < s'.left ∧ Traced.Calls BusCall.served? r.buses r'.buses [] ∧ r.Moves good r' := by
  unfold Transfer.currentStretch
  by_cases hleft : s.left = 0
  · have haddress : (r.channel t.id).address = position := by
      rw [h.channel_eq, h.position_eq]
      rfl
    rw [if_pos hleft, haddress]
    obtain ⟨hsound, hrouted, hlen, hcalls, hmoves, htaken⟩ :=
      t.openStretch_spec hs position blockSize h.steady
    have hpos : 0 < (t.openStretch position blockSize r).1.left := by
      rw [hlen]
      decide
    refine ⟨(t.openStretch position blockSize r).1, (t.openStretch position blockSize r).2, rfl,
      ⟨hmoves.good h.steady, (hmoves.keeps.channel _).trans h.channel_eq, h.place_eq,
      h.position_eq, htaken, ?_, ?_, fun _ => hsound, hrouted⟩, hpos, hcalls, hmoves⟩
    · rw [hlen]
      have := h.closes
      rw [hleft] at this
      exact this.reopen
    · -- A transfer that stays put has all its bytes in the first stretch.
      intro hhold
      have := h.enough hhold
      omega
  · rw [if_neg hleft]
    exact ⟨s, r, rfl, h, Nat.pos_of_ne_zero hleft, .of_eq rfl, .refl r, rfl, id⟩

/-- One byte arrives as the reference says, and leaves the transfer one byte further on. -/
theorem moveByte (hs : SteadyBlocks (fun a => some (M a)) good)
    (hstep : t.step = t.channel.control.step)
    (h : Sending M good t k (n + 1) place position s r) :
    ∃ place' position' s' r', t.moveByte (.sending place position s) r =
        (.sending place' position' s', r') ∧
      Sending M good t (k + 1) n place' position' s' (r'.modifyChannel t.id (·.countDown t.step)) ∧
      Traced.Calls BusCall.served? r.buses r'.buses (t.channel.arrival M k) ∧ r.Moves good r' := by
  obtain ⟨s₁, r₁, hcurrent, h', hpos, hcalls, hmoves⟩ := h.currentStretch hs
  obtain ⟨left, hleft⟩ : ∃ left, s₁.left = left + 1 := ⟨s₁.left - 1, by omega⟩
  have hsound := h'.sound hpos
  obtain ⟨hsent, hmoved, htaken⟩ := hsound.sendByte (k := k % t.channel.mode.size) hs.toSteady
    h'.routed h'.steady h'.taken_eq
  have harrival : arriving (t.channel.register (t.channel.mode.offsets.getD
      (k % t.channel.mode.size) 0)) (M (.of t.channel.bank position))
      (isWorkRam t.channel.bank position) = t.channel.arrival M k := by
    rw [h.position_eq]
    rfl
  rw [harrival, ← h.place_eq] at hsent
  rw [← h.place_eq] at hmoved htaken
  refine ⟨place.advance, position + t.step.word, { s₁ with left := s₁.left - 1 },
    t.sendByte place position s₁ r₁, ?_, ?_, hcalls.trans hsent, hmoves.trans hmoved⟩
  · simp only [Transfer.moveByte, hcurrent]
  · have hnext : position + t.step.word = t.channel.sourceOffset (k + 1) := by
      rw [hstep, h.position_eq, Channel.sourceOffset_succ]
    have hcloses := h'.closes
    rw [hleft] at hcloses
    constructor
    · exact hmoved.good h'.steady
    · rw [Rig.channel_modifyChannel, if_pos rfl, hmoved.keeps.channel, h'.channel_eq, hstep,
        Channel.countDown_after]
    · rw [h.place_eq, UnitCursor.advance_mod]
    · exact hnext
    · exact htaken
    · rw [hstep, hleft]
      exact hcloses.step
    · intro hhold
      have := h'.enough hhold
      show n ≤ s₁.left - 1
      omega
    · intro hmore
      change 0 < s₁.left - 1 at hmore
      obtain ⟨left', rfl⟩ : ∃ left', left = left' + 1 := ⟨left - 1, by omega⟩
      rw [hstep]
      exact hsound.congr hcloses.sameBlock (s₁.left - 1)
    · exact h'.routed

end Sending

/-! ### A run without events -/

theorem Sending.congr {t : Transfer} {k n : Nat} {place : UnitCursor} {position : UInt16}
    {s : Stretch} {r r' : Rig (Traced β)} (h : Sending M good t k n place position s r)
    (hb : r'.buses = r.buses) (hc : r'.channel t.id = r.channel t.id) :
    Sending M good t k n place position s r' := by
  obtain ⟨h1, h2, h3, h4, h5, h6, h7, h8, h9⟩ := h
  exact ⟨hb ▸ h1, hc.trans h2, h3, h4, hb ▸ h5, h6, h7, h8, h9⟩

/-- Where a sending transfer stands `j` bytes behind byte `k`, with what has arrived since the buses
were in the state `b`. -/
def Sent (M : Address → UInt8) (good : β → Prop) (t : Transfer) (b : Traced β) (k j n : Nat)
    (progress : Progress) (r : Rig (Traced β)) : Prop :=
  ∃ place position s, progress = .sending place position s ∧
    Sending M good t (k + j) n place position s r ∧
    Traced.Calls BusCall.served? b r.buses ((List.range' k j).flatMap (t.channel.arrival M))

theorem Sent.byte (hs : SteadyBlocks (fun a => some (M a)) good) {t : Transfer}
    (hstep : t.step = t.channel.control.step) {b : Traced β} {k j n : Nat} {progress : Progress}
    {r : Rig (Traced β)} (h : Sent M good t b k j (n + 1) progress r) :
    Sent M good t b k (j + 1) n (t.moveByte progress r).1 (t.quietByte progress r) := by
  obtain ⟨place, position, s, rfl, hsend, hcalls⟩ := h
  obtain ⟨place', position', s', r', hmove, hsend', hserved, -⟩ := hsend.moveByte hs hstep
  unfold Transfer.quietByte
  rw [hmove]
  refine ⟨place', position', s', rfl, hsend'.congr rfl rfl, ?_⟩
  rw [List.range'_1_concat, List.flatMap_append, List.flatMap_singleton]
  exact hcalls.trans hserved

namespace Host

variable {κ : Type} [Schedule κ (Traced β)]

/-- A run that no event interrupts serves the arrivals of its bytes in order. -/
theorem moveBytes_sending (hs : SteadyBlocks (fun a => some (M a)) good) {t : Transfer}
    (hstep : t.step = t.channel.control.step) (n : Nat) :
    ∀ (k : Nat) (place : UnitCursor) (position : UInt16) (s : Stretch) (h : Host κ (Traced β)),
      Sending M good t k n place position s h.rig → h.Quiet (slowAccess * n) →
      t.id ∉ h.rig.controller.activity.ranInside →
      let moved := moveBytes t n (.sending place position s) h
      moved.1 = true ∧
        Traced.Calls BusCall.served? h.rig.buses moved.2.rig.buses
          ((List.range' k n).flatMap (t.channel.arrival M)) ∧
        moved.2.rig.channel t.id = t.channel.after (k + n) := by
  intro k place position s h hsend hq hran
  have hstart : Sent M good t h.rig.buses k 0 n (.sending place position s) h.rig :=
    ⟨place, position, s, rfl, hsend, .of_eq rfl⟩
  obtain ⟨hdone, progress', hlast⟩ := moveBytes_quiet
    (fun _ _ _ _ hsent => Sent.byte hs hstep hsent) n 0 hstart hq hran
  rw [Nat.zero_add] at hlast
  obtain ⟨_, _, _, -, hsend', hserved⟩ := hlast
  exact ⟨hdone, hserved, hsend'.channel_eq⟩

omit [Schedule κ (Traced β)] in
/-- The first stretch of a transfer to the registers is opened, and no byte has been sent. -/
theorem prepare_sending (hs : SteadyBlocks (fun a => some (M a)) good) (h : Host κ (Traced β))
    (i : ChannelId) (hgood : good h.rig.buses.inner)
    (hforward : (h.rig.channel i).control.reverse = false)
    (hvalid : (h.rig.channel i).feedsWorkRamItself = false)
    (hdecoder : h.isDecoded i = false) :
    ∃ s start, h.prepare i = (⟨i, h.rig.channel i, (h.rig.channel i).control.step⟩,
        .sending (.start (h.rig.channel i).mode) (h.rig.channel i).address s, start) ∧
      Sending M good ⟨i, h.rig.channel i, (h.rig.channel i).control.step⟩ 0
        (h.rig.channel i).length (.start (h.rig.channel i).mode) (h.rig.channel i).address s
        start.rig ∧
      Traced.Calls BusCall.served? h.rig.buses start.rig.buses [] ∧
      start.rig.cycles = h.rig.cycles + slowAccess ∧ start.schedule = h.schedule ∧
      start.rig.controller.activity.ranInside = h.rig.controller.activity.ranInside := by
  generalize hc : h.rig.channel i = c at hforward hvalid
  have hnot : (c.control.fixed && (h.noteStart i).takeDecoderReady.1) = false := by
    rw [← hc, isDecoded_eq, hdecoder]
  obtain ⟨d, hd⟩ := (h.noteStart i).takeDecoderReady_snd
  generalize ht : (⟨i, c, c.control.step⟩ : Transfer) = t
  generalize hready : (h.noteStart i).takeDecoderReady.2.spend slowAccess = ready
  have hbuses : ready.rig.buses = h.rig.buses := by rw [← hready, hd]; rfl
  have hcycles : ready.rig.cycles = h.rig.cycles + slowAccess := by rw [← hready, hd]; rfl
  have hchannel : ready.rig.channel i = c := by rw [← hready, hd, ← hc]; rfl
  have hprep : h.prepare i = (t, .sending (.start c.mode) c.address
      (t.openStretch c.address (t.firstStretch c.address) ready.rig).1,
      { ready with rig := (t.openStretch c.address (t.firstStretch c.address) ready.rig).2 }) := by
    simp only [prepare, Transfer.begin, hc, hvalid, hnot, hforward, Bool.false_eq_true, if_false,
      ht, hready]
    rw [← ht]
    rfl
  obtain ⟨hsound, hrouted, hlen, hcalls, hmoves, htaken⟩ :=
    t.openStretch_spec hs c.address (t.firstStretch c.address) (r := ready.rig) (hbuses ▸ hgood)
  have htc : t.channel = c := by rw [← ht]
  have hid : t.id = i := by rw [← ht]
  refine ⟨_, _, hprep, ⟨hmoves.good (hbuses ▸ hgood), ?_, ?_, ?_, htaken, ?_, ?_, ?_, hrouted⟩,
    hbuses ▸ hcalls, hmoves.cycles.trans hcycles, ?_, ?_⟩
  · rw [hmoves.keeps.channel, hid, hchannel, htc, Channel.after_zero]
  · rw [htc, Nat.zero_mod]
    rfl
  · rw [htc]
    simp [Channel.sourceOffset]
  · rw [hlen]
    have := t.closes_firstStretch c.address
    rwa [htc] at this ⊢
  · have hwhole := t.length_le_firstStretch c.address
    rw [htc] at hwhole ⊢
    rwa [hlen]
  · intro _
    exact hsound
  · rw [← hready, hd]
    rfl
  · rw [hmoves.keeps.ranInside, ← hready, hd]
    rfl

end Host

/-- A transfer to the registers that is not interrupted comes to its end, serves its reference
byte by byte, and leaves a count of zero and the address behind its last byte.  No word is left for
it at its start wherever the rig is at rest (`Rig.Resting`). -/
theorem runChannel_serves_reference {κ : Type} [Schedule κ (Traced β)]
    (hs : SteadyBlocks (fun a => some (M a)) good) (h : Host κ (Traced β)) (i : ChannelId)
    (hgood : good h.rig.buses.inner)
    (hforward : (h.rig.channel i).control.reverse = false)
    (hvalid : (h.rig.channel i).feedsWorkRamItself = false)
    (hdecoder : h.isDecoded i = false)
    (hquiet : h.Quiet (slowAccess + slowAccess * (h.rig.channel i).length))
    (hrest : i ∉ h.rig.controller.activity.ranInside) :
    (h.runChannel i).1 = true ∧
      Traced.Calls BusCall.served? h.rig.buses (h.runChannel i).2.rig.buses
        ((h.rig.channel i).reference M) ∧
      (h.runChannel i).2.rig.channel i =
        { h.rig.channel i with
          count := 0
          address := (h.rig.channel i).sourceOffset (h.rig.channel i).length } := by
  obtain ⟨s, start, hprep, hsend, hcalls, hcycles, hschedule, hran⟩ :=
    h.prepare_sending hs i hgood hforward hvalid hdecoder
  have hquiet' : start.Quiet (slowAccess * (h.rig.channel i).length) := by
    intro position hp
    have := hquiet position (by rw [← hp]; unfold Host.nextEvent; rw [hschedule])
    rw [hcycles]
    omega
  obtain ⟨hdone, hserved, hchannel⟩ := Host.moveBytes_sending hs rfl _ 0 _ _ s start hsend hquiet'
    (hran ▸ hrest)
  rw [Host.runChannel_eq, hprep]
  refine ⟨hdone, ?_, ?_⟩
  · generalize hstop : (Host.moveBytes _ _ _ start).2 = stop at hserved
    have hlast : Traced.Calls BusCall.served? stop.rig.buses
        (Buses.setWorkRamTaken false stop.rig.buses) [] :=
      Traced.Calls.one (c := .setWorkRamTaken false) rfl
    have hall := (hcalls.trans hserved).trans hlast
    rw [List.nil_append, List.append_nil] at hall
    show Traced.Calls _ _ (Host.conclude _ _ (Host.moveBytes _ _ _ start).2).rig.buses _
    rw [hstop, Host.buses_conclude, Channel.reference, List.range_eq_range']
    exact hall
  · show (Host.conclude _ _ _).rig.channel i = _
    rw [Host.channel_conclude, hchannel, Nat.zero_add, Channel.after, Channel.count_sub_length]

/-! ### A transfer over the end of a block -/

section

attribute [local instance] Recorder.plain

/-- Five bytes of work RAM, from the end of a block on, for the two registers of video data; the
block is closed to direct access and the next one open. -/
def crossing : Host Beam (Traced Recorder) where
  rig :=
    { controller := (Controller.powerOn .standard).setChannel (channelNumber 4)
        { Channel.powerOn with
          control := .ofByte 0x01, port := 0x18, bank := 0x7E, address := 0x0FFD, count := 5 }
      buses := ⟨{ Recorder.blank false with
        memory := Memory.zero.load 0x7E0FFD [0x11, 0x22, 0x33, 0x44, 0x55]
        slow := [(0x7E0000, 0x7E0FFF)] }, false, []⟩
      cycles := 0 }
  schedule := Beam.powerOn.await .endLine Beam.cyclesPerLine

theorem crossing_serves_reference :
    (crossing.runChannel 4).1 = true ∧
      Traced.Calls BusCall.served? crossing.rig.buses (crossing.runChannel 4).2.rig.buses
        [(0x2118, 0x11), (0x2119, 0x22), (0x2118, 0x33), (0x2119, 0x44), (0x2118, 0x55)] ∧
      (crossing.runChannel 4).2.rig.channel 4 =
        { crossing.rig.channel 4 with count := 0, address := 0x1002 } := by
  have hquiet : crossing.Quiet (slowAccess + slowAccess * (crossing.rig.channel 4).length) := by
    intro position hp
    cases hp
    decide
  have hrest : crossing.rig.Resting := ⟨rfl, rfl⟩
  exact runChannel_serves_reference (Recorder.steadyBlocks crossing.rig.buses.inner.memory)
    crossing 4 rfl (by decide) (by decide) (by decide) hquiet (hrest.notMem 4)

end

end DmaController
