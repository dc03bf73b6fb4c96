import DmaController.Proofs.Logged
import DmaController.Proofs.Transfer.Events
import DmaController.Proofs.Transfer.Stretches

/-! # The accesses of a transfer

What moving a byte does on the buses is told by its `Access`.  The registers it reaches, the places
it writes and the way it looks at memory are read off the log.  The log of a whole transfer has what
was noted when it was prepared, and then for each byte the access and what the events behind it have
noted (`carries_runChannel`).

The address of an access is the one place to which it leads: the place that it reads or writes, or
the one that lies behind its pointer (`reached_accesses`).  A pointer is only good in the block for
which it was given out (`Look.placeOf`); so this takes events that leave the address in the channel
alone, at which the next block is opened. -/

namespace DmaController

/-! ### What a log carries -/

/-- The register that a request reaches. -/
def BusCall.register? : BusCall → Option UInt16
  | readRegister a _ _ => some a
  | writeRegister a _ _ => some a
  | _ => none

/-- The place that a request writes. -/
def BusCall.stored? : BusCall → Option Address
  | write a _ => some a
  | _ => none

/-- What has gone over the buses: looks at memory, places that were written and registers that were
reached. -/
structure Traffic where
  looks : List Look
  stores : List Address
  registers : List UInt16
deriving DecidableEq, Repr

namespace Traffic

/-- No traffic. -/
def nothing : Traffic := ⟨[], [], []⟩

instance : Append Traffic :=
  ⟨fun x y => ⟨x.looks ++ y.looks, x.stores ++ y.stores, x.registers ++ y.registers⟩⟩

/-- All traffic of a list. -/
def join (l : List Traffic) : Traffic := l.foldr (· ++ ·) nothing

@[simp] theorem append_nothing (x : Traffic) : x ++ nothing = x := by
  show (⟨_, _, _⟩ : Traffic) = x
  simp only [nothing, List.append_nil]

theorem append_assoc (x y z : Traffic) : x ++ y ++ z = x ++ (y ++ z) := by
  show (⟨_, _, _⟩ : Traffic) = ⟨_, _, _⟩
  simp only [Traffic.mk.injEq]
  exact ⟨List.append_assoc _ _ _, List.append_assoc _ _ _, List.append_assoc _ _ _⟩

theorem join_cons (x : Traffic) (l : List Traffic) : join (x :: l) = x ++ join l := rfl

theorem join_append (l l' : List Traffic) : join (l ++ l') = join l ++ join l' := by
  induction l with
  | nil => rfl
  | cons x l ih => rw [List.cons_append, join_cons, join_cons, ih, append_assoc]

end Traffic

namespace Logged

variable {β : Type} {t t' t'' : Logged β} {x y : Traffic}

/-- The traffic between two states of a log. -/
def trafficTo (t t' : Logged β) : Traffic where
  looks := t'.looks.drop t.looks.length
  stores := (t'.calls.drop t.calls.length).filterMap BusCall.stored?
  registers := (t'.calls.drop t.calls.length).filterMap BusCall.register?

/-- The log has grown by the traffic `x`. -/
structure Carries (t t' : Logged β) (x : Traffic) : Prop where
  looks : t'.looks = t.looks ++ x.looks
  calls : ∃ calls, t'.calls = t.calls ++ calls ∧
    calls.filterMap BusCall.stored? = x.stores ∧ calls.filterMap BusCall.register? = x.registers

/-- The log has grown by requests that reach the registers `as`. -/
def Touches (t t' : Logged β) (as : List UInt16) : Prop :=
  ∃ calls, t'.calls = t.calls ++ calls ∧ calls.filterMap BusCall.register? = as

namespace Carries

theorem of_eq (hlooks : t'.looks = t.looks) (hcalls : t'.calls = t.calls) :
    Carries t t' .nothing :=
  ⟨by rw [hlooks]; exact (List.append_nil _).symm,
    [], by rw [hcalls, List.append_nil], rfl, rfl⟩

theorem look {l : Look} (hlooks : t'.looks = t.looks ++ [l]) (hcalls : t'.calls = t.calls) :
    Carries t t' ⟨[l], [], []⟩ := ⟨hlooks, [], by rw [hcalls, List.append_nil], rfl, rfl⟩

theorem call {c : BusCall} (hlooks : t'.looks = t.looks) (hcalls : t'.calls = t.calls ++ [c]) :
    Carries t t' ⟨[], c.stored?.toList, c.register?.toList⟩ := by
  refine ⟨by rw [hlooks, List.append_nil], [c], hcalls, ?_, ?_⟩
  · cases hc : c.stored? <;> simp [hc]
  · cases hc : c.register? <;> simp [hc]

theorem trans (h : Carries t t' x) (h' : Carries t' t'' y) : Carries t t'' (x ++ y) := by
  obtain ⟨calls, e, hs, hr⟩ := h.calls
  obtain ⟨calls', e', hs', hr'⟩ := h'.calls
  refine ⟨by rw [h'.looks, h.looks, List.append_assoc]; rfl,
    calls ++ calls', by rw [e', e, List.append_assoc], ?_, ?_⟩
  · rw [List.filterMap_append, hs, hs']
    rfl
  · rw [List.filterMap_append, hr, hr']
    rfl

/-- What a log carries is what lies between. -/
theorem trafficTo_eq (h : Carries t t' x) : t.trafficTo t' = x := by
  obtain ⟨calls, e, hs, hr⟩ := h.calls
  rw [trafficTo, h.looks, e, List.drop_left, List.drop_left, hs, hr]

theorem touches (h : Carries t t' x) : Touches t t' x.registers := by
  obtain ⟨calls, e, -, hr⟩ := h.calls
  exact ⟨calls, e, hr⟩

end Carries

namespace Touches

variable {as as' : List UInt16}

theorem of_eq (h : t'.calls = t.calls) : Touches t t' [] := ⟨[], by rw [h, List.append_nil], rfl⟩

theorem one {c : BusCall} (h : t'.calls = t.calls ++ [c]) :
    Touches t t' (BusCall.register? c).toList := by
  refine ⟨[c], h, ?_⟩
  cases hc : BusCall.register? c <;> simp [hc]

theorem trans (h : Touches t t' as) (h' : Touches t' t'' as') : Touches t t'' (as ++ as') := by
  obtain ⟨calls, e, ha⟩ := h
  obtain ⟨calls', e', ha'⟩ := h'
  refine ⟨calls ++ calls', by rw [e', e, List.append_assoc], ?_⟩
  rw [List.filterMap_append, ha, ha']

end Touches

end Logged

/-! ### Where looks lead -/

namespace Look

/-- The place behind a pointer, counted from the pointer to the block that was last asked for; there
is none outside of that block. -/
def placeOf (last : Option (Address × Pointer)) (p : Pointer) : Option Address :=
  last.bind fun (a, base) =>
    let o := (p.index - base.index).toUInt16
    if base.offset o.toUInt64 = p ∧ SameBlock (Address.offset a) o then
      some (.of (Address.bank a) o)
    else none

/-- The places that are looked at, when `last` was the block last asked for. -/
def places : Option (Address × Pointer) → List Look → List Address
  | _, [] => []
  | last, read a :: ls => a :: places last ls
  | last, word a :: ls => a % 0x1000000 :: (a + 1) % 0x1000000 :: places last ls
  | _, block a p :: ls => places (p.map fun p => (a, p)) ls
  | last, byte _ _ :: ls => places last ls
  | last, peek p :: ls => (placeOf last p).toList ++ places last ls

/-- The block last asked for after some looks, when it was `last` before. -/
def lastBlock : Option (Address × Pointer) → List Look → Option (Address × Pointer)
  | last, [] => last
  | _, block a p :: ls => lastBlock (p.map fun p => (a, p)) ls
  | last, _ :: ls => lastBlock last ls

theorem lastBlock_append (last : Option (Address × Pointer)) (ls ls' : List Look) :
    lastBlock last (ls ++ ls') = lastBlock (lastBlock last ls) ls' := by
  induction ls generalizing last with
  | nil => rfl
  | cons l ls ih => cases l <;> exact ih _

theorem places_append (last : Option (Address × Pointer)) (ls ls' : List Look) :
    places last (ls ++ ls') = places last ls ++ places (lastBlock last ls) ls' := by
  induction ls generalizing last with
  | nil => rfl
  | cons l ls ih =>
      rw [List.cons_append]
      cases l <;> simp only [places, lastBlock, ih, List.cons_append, List.append_assoc]

theorem placeOf_offset {bank : UInt8} {opened position : UInt16} {base : Pointer}
    (h : SameBlock opened position) :
    placeOf (some (.of bank opened, base)) (base.offset position.toUInt64) =
      some (.of bank position) := by
  have hposition : ((base.offset position.toUInt64).index - base.index).toUInt16 = position := by
    rw [Pointer.offset, UInt64.add_comm, UInt64.add_sub_cancel, UInt16.toUInt16_toUInt64]
  unfold placeOf
  rw [Option.bind_some]
  dsimp only
  rw [hposition, Address.offset_of, Address.bank_of, if_pos ⟨rfl, h⟩]

end Look

/-! ### One byte -/

/-- What moving a byte is seen to do: its address on the A-bus, the registers it reaches, whether
work RAM was said to be in use, how memory was looked at and which places were written. -/
structure Access where
  address : Address
  registers : List UInt16
  taken : Bool
  looks : List Look
  stores : List Address
deriving DecidableEq, Repr

/-- The traffic of an access. -/
def Access.traffic (access : Access) : Traffic := ⟨access.looks, access.stores, access.registers⟩

/-- How a byte at a position of a source is looked at. -/
def Source.looks (bank : UInt8) (position : UInt16) : Source → List Look
  | mapped => [.read (.of bank position)]
  | block base => [.peek (base.offset position.toUInt64)]
  | decoder => []

section

variable {β : Type} [Buses β]

theorem Rig.carries_setWorkRamTaken (taken : Bool) (r : Rig (Logged β)) :
    Logged.Carries r.buses (r.setWorkRamTaken taken).buses .nothing :=
  .call (c := .setWorkRamTaken taken) rfl rfl

theorem Route.carries_deliver (route : Route) (register : UInt16) (offset v : UInt8)
    (taken : Bool) (r : Rig (Logged β)) :
    Logged.Carries r.buses (route.deliver register offset v taken r).buses
      ⟨[], [], route.registers register offset taken⟩ := by
  cases route with
  | ordinary => exact .call (c := .writeRegister register v r.buses.taken) rfl rfl
  | sprite => exact .call (c := .writeRegister 0x2104 v r.buses.taken) rfl rfl
  | video high remapped => exact .call (c := .writeRegister _ v r.buses.taken) rfl rfl
  | videoPair remapped =>
      unfold deliver
      dsimp only
      split <;> exact .call (c := .writeRegister _ v r.buses.taken) rfl rfl
  | colour => exact .call (c := .writeRegister 0x2122 v r.buses.taken) rfl rfl
  | workRam =>
      cases taken with
      | true => exact .of_eq rfl rfl
      | false => exact .call (c := .writeRegister 0x2180 v r.buses.taken) rfl rfl

namespace Transfer

variable (t : Transfer)

/-- The address of the next byte on the A-bus. -/
def place (progress : Progress) (r : Rig β) : Address :=
  match progress with
  | .sending _ position _ => .of t.channel.bank position
  | _ => .of t.channel.bank (r.channel t.id).address

/-- The look with which a block is opened. -/
def openingLook (offset : UInt16) (r : Rig (Logged β)) : Look :=
  .block (.of t.channel.bank offset) (Buses.blockPointer (.of t.channel.bank offset) r.buses).1

/-- The look that is taken, if any, to have a stretch for the next byte. -/
def stretchLooks (stretch : Stretch) (r : Rig (Logged β)) : List Look :=
  if stretch.left = 0 then [t.openingLook (r.channel t.id).address r] else []

/-- The looks that the next byte takes. -/
def looks (progress : Progress) (r : Rig (Logged β)) : List Look :=
  match progress with
  | .sending _ position stretch =>
    t.stretchLooks stretch r ++
      (t.currentStretch stretch r).1.source.looks t.channel.bank position
  | _ => []

/-- The places that the next byte is written to. -/
def stores (progress : Progress) (r : Rig β) : List Address :=
  match progress with
  | .collecting _ => [.of t.channel.bank (r.channel t.id).address]
  | _ => []

/-- The registers that the next byte reaches. -/
def registers (progress : Progress) (r : Rig (Logged β)) : List UInt16 :=
  match progress with
  | .idle => []
  | .collecting place => [t.channel.register place.offset]
  | .sending place _ stretch =>
    let current := (t.currentStretch stretch r).1
    current.route.registers (t.channel.register place.offset) place.offset current.taken

/-- How the next byte is moved. -/
def access (progress : Progress) (r : Rig (Logged β)) : Access :=
  let moved := (t.moveByte progress r).2
  let traffic := r.buses.trafficTo moved.buses
  { address := t.place progress r
    registers := traffic.registers
    taken := moved.controller.activity.workRamTaken
    looks := traffic.looks
    stores := traffic.stores }

theorem carries_openStretch (offset : UInt16) (left : Nat) (r : Rig (Logged β)) :
    Logged.Carries r.buses (t.openStretch offset left r).2.buses
      ⟨[t.openingLook offset r], [], []⟩ := by
  have hasked : Logged.Carries r.buses (r.blockPointer (.of t.channel.bank offset)).2.buses
      ⟨[t.openingLook offset r], [], []⟩ := .look rfl rfl
  exact hasked.trans (Rig.carries_setWorkRamTaken (isWorkRam t.channel.bank offset) _)

/-- Beginning a transfer looks at memory where a block has to be opened for it. -/
theorem carries_begin (decoded : Bool) (r : Rig (Logged β)) :
    Logged.Carries r.buses (t.begin decoded r).2.buses
      ⟨if t.channel.control.reverse || decoded then []
        else [t.openingLook t.channel.address r], [], []⟩ := by
  unfold begin
  cases t.channel.control.reverse with
  | true =>
      unfold beginCollecting
      rw [if_pos rfl]
      dsimp only
      split
      · exact .of_eq rfl rfl
      · exact Rig.carries_setWorkRamTaken _ r
  | false =>
      unfold beginSending
      cases decoded with
      | true => exact Rig.carries_setWorkRamTaken false r
      | false =>
          exact t.carries_openStretch t.channel.address (t.firstStretch t.channel.address) r

theorem carries_currentStretch (stretch : Stretch) (r : Rig (Logged β)) :
    Logged.Carries r.buses (t.currentStretch stretch r).2.buses
      ⟨t.stretchLooks stretch r, [], []⟩ := by
  unfold currentStretch stretchLooks
  split
  · exact t.carries_openStretch _ blockSize r
  · exact .of_eq rfl rfl

theorem carries_sendByte (place : UnitCursor) (position : UInt16) (stretch : Stretch)
    (r : Rig (Logged β)) :
    Logged.Carries r.buses (t.sendByte place position stretch r).buses
      ⟨stretch.source.looks t.channel.bank position, [],
        stretch.route.registers (t.channel.register place.offset) place.offset
          stretch.taken⟩ := by
  have hdeliver (v : UInt8) (r : Rig (Logged β)) := stretch.route.carries_deliver
    (t.channel.register place.offset) place.offset v stretch.taken r
  unfold sendByte fetch
  cases stretch.source with
  | mapped =>
      have hread (a : Address) (r : Rig (Logged β)) :
          Logged.Carries r.buses (r.read a).2.buses ⟨[.read a], [], []⟩ := .look rfl rfl
      exact (hread _ r).trans (hdeliver _ _)
  | block base =>
      have hpeek (p : Pointer) (r : Rig (Logged β)) :
          Logged.Carries r.buses (r.peek p).2.buses ⟨[.peek p], [], []⟩ := .look rfl rfl
      exact (hpeek _ r).trans (hdeliver _ _)
  | decoder => exact hdeliver _ r

theorem carries_collectByte (place : UnitCursor) (r : Rig (Logged β)) :
    Logged.Carries r.buses (t.collectByte place r).buses
      ⟨[], [.of t.channel.bank (r.channel t.id).address],
        [t.channel.register place.offset]⟩ := by
  have hcollect (r : Rig (Logged β)) (a : Address) (register : UInt16) :
      Logged.Carries r.buses
        ((r.readRegister register).2.write a (r.readRegister register).1).buses
        ⟨[], [a], [register]⟩ := by
    have hread : Logged.Carries r.buses (r.readRegister register).2.buses ⟨[], [], [register]⟩ :=
      .call (c := .readRegister register _ r.buses.taken) rfl rfl
    have hwrite (v : UInt8) (r : Rig (Logged β)) :
        Logged.Carries r.buses (r.write a v).buses ⟨[], [a], []⟩ :=
      .call (c := .write a v) rfl rfl
    exact hread.trans (hwrite _ _)
  unfold collectByte
  dsimp only
  split
  · exact (Rig.carries_setWorkRamTaken _ r).trans (hcollect _ _ _)
  · exact hcollect _ _ _

/-- Moving a byte is noted by the looks, the places and the registers it takes. -/
theorem carries_moveByte (progress : Progress) (r : Rig (Logged β)) :
    Logged.Carries r.buses (t.moveByte progress r).2.buses
      ⟨t.looks progress r, t.stores progress r, t.registers progress r⟩ := by
  cases progress with
  | idle => exact .of_eq rfl rfl
  | collecting place => exact t.carries_collectByte place r
  | sending place position stretch =>
      exact (t.carries_currentStretch stretch r).trans (t.carries_sendByte place position _ _)

theorem access_eq (progress : Progress) (r : Rig (Logged β)) :
    t.access progress r =
      { address := t.place progress r
        registers := t.registers progress r
        taken := (t.moveByte progress r).2.controller.activity.workRamTaken
        looks := t.looks progress r
        stores := t.stores progress r } := by
  unfold access
  dsimp only
  rw [(t.carries_moveByte progress r).trafficTo_eq]

theorem carries_access (progress : Progress) (r : Rig (Logged β)) :
    Logged.Carries r.buses (t.moveByte progress r).2.buses (t.access progress r).traffic := by
  rw [access_eq]
  exact t.carries_moveByte progress r

end Transfer

end

/-! ### All bytes -/

namespace Host

variable {κ β : Type} [Buses β]

/-- The accesses of the next `n` bytes. -/
def byteAccesses [Schedule κ (Logged β)] (t : Transfer) :
    Nat → Progress → Host κ (Logged β) → List Access
  | 0, _, _ => []
  | n + 1, progress, h =>
      let passed := (h.byteDone t progress).passByte t.id
      t.access progress h.rig ::
        if passed.1 then byteAccesses t n (t.moveByte progress h.rig).1 passed.2 else []

/-- The accesses of the transfer of channel `i`, byte by byte; a transfer that would feed work RAM
itself makes none. -/
def accesses [Schedule κ (Logged β)] (h : Host κ (Logged β)) (i : ChannelId) : List Access :=
  if (h.rig.channel i).feedsWorkRamItself then []
  else
    let (t, progress, start) := h.prepare i
    byteAccesses t (h.rig.channel i).length progress start

/-- How memory is looked at before the first byte of a transfer. -/
def openingLooks (h : Host κ (Logged β)) (i : ChannelId) : List Look :=
  let c := h.rig.channel i
  if c.feedsWorkRamItself || c.control.reverse || h.isDecoded i then []
  else
    let a := Address.of c.bank c.address
    [.block a (Buses.blockPointer a h.rig.buses).1]

theorem carries_prepare (h : Host κ (Logged β)) (i : ChannelId) :
    Logged.Carries h.rig.buses (h.prepare i).2.2.rig.buses ⟨h.openingLooks i, [], []⟩ := by
  have hready : (h.noteStart i).takeDecoderReady.2.rig.buses = h.rig.buses := by
    obtain ⟨d, hd⟩ := (h.noteStart i).takeDecoderReady_snd
    rw [hd]
    rfl
  unfold prepare openingLooks
  dsimp only
  rw [isDecoded_eq]
  cases (h.rig.channel i).feedsWorkRamItself with
  | true => exact .of_eq rfl rfl
  | false =>
      rw [if_neg Bool.false_ne_true, Bool.false_or, ← hready]
      exact Transfer.carries_begin _ _ ((h.noteStart i).takeDecoderReady.2.spend slowAccess).rig

theorem carries_conclude [Schedule κ (Logged β)] (h : Host κ (Logged β)) (idle done : Bool) :
    Logged.Carries h.rig.buses (h.conclude idle done).rig.buses .nothing := by
  rw [buses_conclude]
  exact h.rig.carries_setWorkRamTaken false

variable [Schedule κ (Logged β)]

/-- There is an access for every byte. -/
theorem length_byteAccesses {γ : Type} (note : Host κ (Logged β) → List γ) (t : Transfer) (n : Nat)
    (progress : Progress) (h : Host κ (Logged β)) :
    (byteAccesses t n progress h).length = (byteNotes note t n progress h).length := by
  induction n generalizing progress h with
  | zero => rfl
  | succ n ih =>
      rw [byteAccesses, byteNotes, List.length_cons, List.length_cons]
      split
      · rw [ih]
      · rfl

/-- The traffic of accesses, each with that of the events behind it. -/
def trafficOf (accesses : List Access) (notes : List (Host κ (Logged β) × List Traffic)) :
    Traffic :=
  .join ((accesses.zip notes).flatMap fun byte => byte.1.traffic :: byte.2.2)

section

variable {told : Host κ (Logged β) → Traffic}

omit [Buses β] in
theorem carries_passByte {h : Host κ (Logged β)} (i : ChannelId)
    (hevents : ∀ e ∈ settleNotes (fun e => [e]) settleLimit (h.spend slowAccess),
      Logged.Carries e.rig.buses (Schedule.fire e).rig.buses (told e)) :
    Logged.Carries h.rig.buses (h.passByte i).2.rig.buses
      (.join (settleNotes (fun e => [told e]) settleLimit (h.spend slowAccess))) := by
  refine settleWithin_run (R := fun r xs r' => Logged.Carries r.buses r'.buses (.join xs)) _
    (fun _ => .of_eq rfl rfl) ?_ settleLimit (h := h.spend slowAccess) ?_
  · intro r r' r'' xs ys hxs hys
    rw [Traffic.join_append]
    exact hxs.trans hys
  · intro e he
    rw [Traffic.join_cons]
    exact (hevents e he).trans (.of_eq rfl rfl)

/-- The log of the next bytes has their accesses in it, each with what the events behind it have
noted. -/
theorem carries_moveBytes (t : Transfer) (n : Nat) {progress : Progress} {h : Host κ (Logged β)}
    (hevents : ∀ e ∈ (byteNotes (fun e => [e]) t n progress h).flatMap Prod.snd,
      Logged.Carries e.rig.buses (Schedule.fire e).rig.buses (told e)) :
    Logged.Carries h.rig.buses (moveBytes t n progress h).2.rig.buses
      (trafficOf (byteAccesses t n progress h)
        (byteNotes (fun e => [told e]) t n progress h)) := by
  induction n generalizing progress h with
  | zero => exact .of_eq rfl rfl
  | succ n ih =>
      rw [byteNotes, List.flatMap_cons] at hevents
      have hmoved : Logged.Carries h.rig.buses (h.byteDone t progress).rig.buses
          (t.access progress h.rig).traffic := t.carries_access progress h.rig
      have hpassed := hmoved.trans (carries_passByte t.id
        fun e he => hevents e (List.mem_append_left _ he))
      rw [moveBytes_succ, byteAccesses, byteNotes, trafficOf, List.zip_cons_cons,
        List.flatMap_cons, List.cons_append, Traffic.join_cons, Traffic.join_append,
        ← Traffic.append_assoc]
      by_cases hgo : ((h.byteDone t progress).passByte t.id).1 = true
      · rw [if_pos hgo] at hevents ⊢
        rw [if_pos hgo, if_pos hgo]
        exact hpassed.trans (ih fun e he => hevents e (List.mem_append_right _ he))
      · rw [if_neg hgo, if_neg hgo, if_neg hgo]
        exact hpassed.trans (.of_eq rfl rfl)

/-- The log of a transfer has its accesses in it, each with what the events behind it have noted. -/
theorem carries_runChannel {h : Host κ (Logged β)} {i : ChannelId}
    (hmoves : (h.rig.channel i).feedsWorkRamItself = false)
    (hevents : ∀ e ∈ h.events i,
      Logged.Carries e.rig.buses (Schedule.fire e).rig.buses (told e)) :
    Logged.Carries h.rig.buses (h.runChannel i).2.rig.buses
      (⟨h.openingLooks i, [], []⟩ ++
        trafficOf (h.accesses i) (h.transferNotes (fun e => [told e]) i)) := by
  have hstart := h.carries_prepare i
  rw [runChannel_eq, accesses, hmoves, if_neg Bool.false_ne_true]
  unfold events transferNotes at hevents
  unfold transferNotes
  generalize h.prepare i = prepared at hstart hevents ⊢
  obtain ⟨t, progress, start⟩ := prepared
  have hmoved := hstart.trans (carries_moveBytes t (h.rig.channel i).length hevents)
  have hdone := hmoved.trans (carries_conclude _ false
    (moveBytes t (h.rig.channel i).length progress start).1)
  rwa [Traffic.append_nothing] at hdone

end

end Host

/-! ### Where accesses lead -/

/-- The places that each of some accesses looks at or writes, when `last` was the block last asked
for. -/
def Access.reached : Option (Address × Pointer) → List Access → List (List Address)
  | _, [] => []
  | last, access :: rest =>
    (Look.places last access.looks ++ access.stores) ::
      reached (Look.lastBlock last access.looks) rest

/-- A stretch at a position is read through the memory map, or through the pointer to the block that
was last asked for, which the position is in. -/
structure Transfer.Found (t : Transfer) (last : Option (Address × Pointer)) (position : UInt16)
    (s : Stretch) : Prop where
  source : ∃ opened, t.InBlock opened position s.left ∧
    (s.source = .mapped ∨ ∃ base, s.source = .block base ∧
      last = some (.of t.channel.bank opened, base))

/-- Where a transfer that moves bytes of memory stands ahead of one of them. -/
def Transfer.Follows {β : Type} (t : Transfer) (last : Option (Address × Pointer)) :
    Progress → Rig β → Prop
  | .idle, _ => False
  | .collecting _, _ => True
  | .sending _ position s, r => (r.channel t.id).address = position ∧ t.Found last position s

namespace Transfer

section

variable {β : Type} [Buses β] {t : Transfer} {last : Option (Address × Pointer)}
  {position : UInt16}

/-- A block that was just opened is the one last asked for. -/
theorem found_openStretch {left : Nat} (hblock : t.InBlock position position left)
    (r : Rig (Logged β)) :
    t.Found (Look.lastBlock last [t.openingLook position r]) position
      (t.openStretch position left r).1 := by
  refine ⟨position, hblock, ?_⟩
  have hasked : (Buses.blockPointer (.of t.channel.bank position) r.buses).1 =
      (Buses.blockPointer (.of t.channel.bank position) r.buses.inner).1 := rfl
  rw [source_openStretch, openingLook, Look.lastBlock, Look.lastBlock]
  cases (Buses.blockPointer (.of t.channel.bank position) r.buses).1 with
  | none => exact .inl rfl
  | some base => exact .inr ⟨base, rfl, rfl⟩

/-- A transfer that is not decoded stands so when it begins. -/
theorem follows_begin {r : Rig (Logged β)} (haddress : (r.channel t.id).address = t.channel.address)
    (hstep : t.step = t.channel.control.step) :
    t.Follows (Look.lastBlock none
        (if t.channel.control.reverse then [] else [t.openingLook t.channel.address r]))
      (t.begin false r).1 (t.begin false r).2 := by
  unfold begin
  cases t.channel.control.reverse with
  | true => trivial
  | false =>
      have hcloses := t.closes_firstStretch t.channel.address
      rw [← hstep] at hcloses
      have hkeeps := Host.keeps_openStretch t t.channel.address (t.firstStretch t.channel.address) r
      exact ⟨(congrArg Channel.address (hkeeps.channel t.id)).trans haddress,
        found_openStretch ⟨hcloses, fun _ => rfl⟩ r⟩

omit [Buses β] in
theorem Follows.of_address {progress : Progress} {r r' : Rig β} (h : t.Follows last progress r)
    (haddress : (r'.channel t.id).address = (r.channel t.id).address) :
    t.Follows last progress r' := by
  cases progress with
  | idle => exact h
  | collecting _ => trivial
  | sending _ _ _ => exact ⟨haddress.trans h.1, h.2⟩

/-- The stretch for the next byte is found as the one before, or has just been opened. -/
theorem Follows.current {place : UnitCursor} {s : Stretch} {r : Rig (Logged β)}
    (h : t.Follows last (.sending place position s) r) :
    Look.places last (t.stretchLooks s r) = [] ∧ 0 < (t.currentStretch s r).1.left ∧
      t.Found (Look.lastBlock last (t.stretchLooks s r)) position
        (t.currentStretch s r).1 := by
  obtain ⟨haddress, hfound⟩ := h
  unfold stretchLooks currentStretch
  by_cases hleft : s.left = 0
  · obtain ⟨opened, hblock, -⟩ := hfound
    rw [hleft] at hblock
    rw [if_pos hleft, if_pos hleft, haddress]
    exact ⟨rfl, Nat.succ_pos _, found_openStretch hblock.reopen r⟩
  · rw [if_neg hleft, if_neg hleft]
    exact ⟨rfl, Nat.pos_of_ne_zero hleft, hfound⟩

omit [Buses β] in
/-- A byte of a stretch is looked at in its place. -/
theorem Found.places {s : Stretch} (h : t.Found last position s) (hleft : 0 < s.left) :
    Look.places last (s.source.looks t.channel.bank position) = [.of t.channel.bank position] ∧
      Look.lastBlock last (s.source.looks t.channel.bank position) = last := by
  obtain ⟨opened, hblock, hsource⟩ := h
  rcases hsource with hmapped | ⟨base, hbase, rfl⟩
  · rw [hmapped]
    exact ⟨rfl, rfl⟩
  · rw [hbase]
    refine ⟨?_, rfl⟩
    rw [Source.looks, Look.places, Look.placeOf_offset (hblock.inside hleft)]
    rfl

omit [Buses β] in
theorem Found.step {s : Stretch} (h : t.Found last position s) (hleft : 0 < s.left) :
    t.Found last (position + t.step.word) { s with left := s.left - 1 } := by
  obtain ⟨opened, hblock, hsource⟩ := h
  obtain ⟨left, hn⟩ : ∃ left, s.left = left + 1 := ⟨s.left - 1, by omega⟩
  rw [hn] at hblock
  refine ⟨opened, ?_, hsource⟩
  show t.InBlock opened _ (s.left - 1)
  rw [hn, Nat.add_sub_cancel]
  exact hblock.step

/-- The next byte is looked at or written in its place, and the transfer stands as well behind
it. -/
theorem Follows.byte {progress : Progress} {r : Rig (Logged β)} (h : t.Follows last progress r) :
    Look.places last (t.looks progress r) ++ t.stores progress r = [t.place progress r] ∧
      t.Follows (Look.lastBlock last (t.looks progress r)) (t.moveByte progress r).1
        ((t.moveByte progress r).2.modifyChannel t.id (·.countDown t.step)) := by
  cases progress with
  | idle => exact h.elim
  | collecting place => exact ⟨rfl, trivial⟩
  | sending place position s =>
      obtain ⟨hnone, hleft, hfound⟩ := h.current
      obtain ⟨hplace, hlast⟩ := hfound.places hleft
      refine ⟨?_, ?_, ?_⟩
      · rw [looks, Look.places_append, hnone, hplace]
        rfl
      · rw [Rig.channel_modifyChannel, if_pos rfl, (Host.keeps_moveByte t _ r).channel,
          Channel.countDown, h.1]
      · rw [looks, Look.lastBlock_append, hlast]
        exact hfound.step hleft

end

end Transfer

namespace Host

variable {κ β : Type} [Buses β] [Schedule κ (Logged β)]

omit [Buses β] in
theorem address_passByte {h : Host κ (Logged β)} {i : ChannelId}
    (hevents : ∀ e ∈ settleNotes (fun e => [e]) settleLimit (h.spend slowAccess),
      ((Schedule.fire e).rig.channel i).address = (e.rig.channel i).address) :
    ((h.passByte i).2.rig.channel i).address = (h.rig.channel i).address :=
  settleWithin_run (R := fun r _ r' => (r'.channel i).address = (r.channel i).address)
    (fun e => [e]) (fun _ => rfl) (fun hfirst hrest => hrest.trans hfirst) settleLimit
    (h := h.spend slowAccess) hevents

/-- Each of the next bytes is looked at or written in its place, if the events leave the address in
the channel alone. -/
theorem reached_byteAccesses (t : Transfer) (n : Nat) {last : Option (Address × Pointer)}
    {progress : Progress} {h : Host κ (Logged β)}
    (hevents : ∀ e ∈ (byteNotes (fun e => [e]) t n progress h).flatMap Prod.snd,
      ((Schedule.fire e).rig.channel t.id).address = (e.rig.channel t.id).address)
    (hfollows : t.Follows last progress h.rig) :
    Access.reached last (byteAccesses t n progress h) =
      (byteAccesses t n progress h).map fun access => [access.address] := by
  induction n generalizing last progress h with
  | zero => rfl
  | succ n ih =>
      obtain ⟨hplace, hnext⟩ := hfollows.byte
      rw [byteNotes, List.flatMap_cons] at hevents
      rw [byteAccesses, Access.reached, List.map_cons, Transfer.access_eq]
      dsimp only
      rw [hplace]
      congr 1
      by_cases hgo : ((h.byteDone t progress).passByte t.id).1 = true
      · rw [if_pos hgo] at hevents ⊢
        have haddress := address_passByte (h := h.byteDone t progress)
          fun e he => hevents e (List.mem_append_left _ he)
        exact ih (fun e he => hevents e (List.mem_append_right _ he)) (hnext.of_address haddress)
      · rw [if_neg hgo]
        rfl

/-- Each access of a transfer that is not decoded leads to one place, its address, if the events
leave the address in the channel alone. -/
theorem reached_accesses {h : Host κ (Logged β)} {i : ChannelId} (hdecoded : h.isDecoded i = false)
    (hevents : ∀ e ∈ h.events i,
      ((Schedule.fire e).rig.channel i).address = (e.rig.channel i).address) :
    Access.reached (Look.lastBlock none (h.openingLooks i)) (h.accesses i) =
      (h.accesses i).map fun access => [access.address] := by
  rw [accesses]
  by_cases hfeeds : (h.rig.channel i).feedsWorkRamItself = true
  · rw [if_pos hfeeds]
    rfl
  rw [if_neg hfeeds]
  have hfollows : (h.prepare i).1.Follows (Look.lastBlock none (h.openingLooks i)) (h.prepare i).2.1
      (h.prepare i).2.2.rig := by
    obtain ⟨d, hd⟩ := (h.noteStart i).takeDecoderReady_snd
    unfold prepare openingLooks
    dsimp only
    rw [isDecoded_eq, hdecoded, if_neg hfeeds, hd, Bool.eq_false_iff.mpr hfeeds, Bool.false_or,
      Bool.or_false, if_neg Bool.false_ne_true]
    exact Transfer.follows_begin (t := ⟨i, h.rig.channel i, (h.rig.channel i).control.step⟩) rfl rfl
  have hid := h.prepare_id i
  unfold events transferNotes at hevents
  generalize h.prepare i = prepared at hfollows hid hevents ⊢
  obtain ⟨t, progress, start⟩ := prepared
  subst hid
  exact reached_byteAccesses t _ hevents hfollows

/-- The accesses of a transfer are what its run has done on the buses. -/
structure Accounted (h : Host κ (Logged β)) (i : ChannelId) : Prop where
  /-- There is one for every byte. -/
  length_eq : (h.accesses i).length = (h.transferNotes (fun e => [e]) i).length
  /-- They are what the log has, beside the opening and what the events have noted. -/
  carries : ∀ told : Host κ (Logged β) → Traffic,
    (∀ e ∈ h.events i, Logged.Carries e.rig.buses (Schedule.fire e).rig.buses (told e)) →
      Logged.Carries h.rig.buses (h.runChannel i).2.rig.buses
        (⟨h.openingLooks i, [], []⟩ ++
          trafficOf (h.accesses i) (h.transferNotes (fun e => [told e]) i))
  /-- Bytes of memory are looked at or written at the address of their access, and nowhere else. -/
  reached : h.isDecoded i = false →
    Access.reached (Look.lastBlock none (h.openingLooks i)) (h.accesses i) =
      (h.accesses i).map fun access => [access.address]

theorem accounted {h : Host κ (Logged β)} {i : ChannelId}
    (hmoves : (h.rig.channel i).feedsWorkRamItself = false)
    (hevents : ∀ e ∈ h.events i,
      ((Schedule.fire e).rig.channel i).address = (e.rig.channel i).address) :
    h.Accounted i where
  length_eq := by
    rw [accesses, hmoves, if_neg Bool.false_ne_true]
    exact length_byteAccesses _ _ _ _ _
  carries _ htold := carries_runChannel hmoves htold
  reached hdecoded := reached_accesses hdecoded hevents

end Host

end DmaController
