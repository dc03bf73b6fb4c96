import DmaController.Proofs.Console.Countdown
import DmaController.Proofs.Transfer.Undisturbed

/-! # A transfer that is stopped

`Rig.Served` says that events have done nothing to a rig but serve requests: lines and frames, with
work that leaves the controller alone in between.  Where the first work on the channel of a general
transfer is the only request behind one of its bytes, the transfer stops there if and only if the
request leaves the channel behind for it (`Rig.leftBy`), and then it stops clean
(`runChannel_aborted`): its accesses, for which its log accounts, are the first ones of the transfer
that no event disturbs, its address and its count have moved by as many bytes, and it has not
touched the schedule, in particular not the interrupt.

A line leaves all its channels behind, but a frame only those that are still active.  If the table
of the channel ends as the frame begins, the transfer goes on (`endingDirect_completes`). -/

namespace DmaController

/-! ### Requests alone -/

/-- From `r` to `r'` nothing but these requests has changed the controller. -/
inductive Rig.Served {β : Type} [Buses β] : Rig β → List (Stop β) → Rig β → Prop
  | done (r : Rig β) : Rig.Served r [] r
  | aside {r r' r'' : Rig β} {stops : List (Stop β)} (controller : r'.controller = r.controller)
      (rest : Rig.Served r' stops r'') : Rig.Served r stops r''
  | line {r r' : Rig β} {stops : List (Stop β)} (m : ChannelMask)
      (rest : Rig.Served (r.runLine m).2 stops r') : Rig.Served r ((r, some (.line m)) :: stops) r'
  | frame {r r' : Rig β} {stops : List (Stop β)} (rest : Rig.Served r.beginFrame stops r') :
      Rig.Served r ((r, some .frame) :: stops) r'

namespace Rig.Served

variable {β : Type} [Buses β] {r r' : Rig β} {stops : List (Stop β)}

theorem lineWork (h : Rig.Served r stops r') : LineWork r (stops.filterMap Rig.leftBy) r' := by
  induction h with
  | done r => exact .done r
  | aside hcontroller _ ih => exact .aside (by rw [hcontroller]) (by rw [hcontroller]) ih
  | line m _ ih => exact .line m ih
  | frame _ ih => exact .frame ih

/-- Requests that do not have a channel work are apart from it. -/
theorem apart {i : ChannelId} (h : Rig.Served r stops r')
    (hidle : ∀ stop ∈ stops, ¬ Rig.WorksOn i stop) : Rig.Apart i r r' := by
  induction h with
  | done r => exact .done r
  | aside hcontroller _ ih => exact .aside hcontroller (ih hidle)
  | line m _ ih =>
      obtain ⟨hfirst, hrest⟩ := List.forall_mem_cons.mp hidle
      exact .line hfirst (ih hrest)
  | frame _ ih =>
      obtain ⟨hfirst, hrest⟩ := List.forall_mem_cons.mp hidle
      exact .frame hfirst (ih hrest)

/-- Requests leave the setup of all channels. -/
theorem setAs (h : Rig.Served r stops r') (i : ChannelId) :
    (r.channel i).SetAs (r'.channel i) := by
  induction h with
  | done r => exact .refl _
  | @aside r r' _ _ hcontroller _ ih =>
      have hchannel : r'.channel i = r.channel i := by rw [Rig.channel, hcontroller]; rfl
      rwa [hchannel] at ih
  | line m _ ih => exact (Rig.setAs_runLine _ m i).trans ih
  | frame _ ih => exact (Rig.setAs_beginFrame _ i).trans ih

end Rig.Served

instance {β : Type} [Buses β] (i : ChannelId) : DecidablePred (Rig.WorksOn (β := β) i)
  | (_, some (.line m)) => inferInstanceAs (Decidable (i ∈ m))
  | (s, some .frame) => inferInstanceAs (Decidable (i ∈ s.controller.enabled))
  | (_, some (.enable _)) => .isFalse id
  | (_, none) => .isFalse id

/-! ### Transfers among requests -/

namespace Host

variable {κ β : Type} [Buses β] [Schedule κ β] {note : Host κ β → List (Stop β)}

/-- The end of a transfer that was stopped leaves the schedule alone. -/
theorem schedule_conclude (idle : Bool) (h : Host κ β) :
    (h.conclude idle false).schedule = h.schedule := rfl

/-- A transfer that was stopped has not touched the schedule. -/
theorem handed_runChannel {h : Host κ β} {i : ChannelId} (hstop : (h.runChannel i).1 = false) :
    Handed h.schedule (h.events i) (h.runChannel i).2.schedule := by
  obtain ⟨stop, line, hlast⟩ := h.timeline_runChannel (fun e => [e]) i
  have hhanded := line.handed
  rw [schedule_prepare] at hhanded
  rw [hlast, hstop, schedule_conclude]
  exact hhanded

variable (hnote : ∀ e : Host κ β, Rig.Served e.rig (note e) (Schedule.fire e).rig)

include hnote

/-- A transfer stops behind a byte that is followed by one request alone if and only if the request
leaves its channel behind. -/
theorem stops_behind_iff {h : Host κ β} {i : ChannelId}
    (hrest : i ∉ h.rig.controller.activity.ranInside) {k : Nat} {stop : Stop β}
    (hlast : ((h.transferNotes note i).map Prod.snd)[k]? = some [stop]) :
    ((h.runChannel i).1 = false ∧ (h.transferNotes note i).length = k + 1) ↔
      ∃ m, Rig.leftBy stop = some m ∧ i ∈ m := by
  obtain ⟨d, hkeeps⟩ := h.keeps_prepare i
  have hid := h.prepare_id i
  rw [runChannel_eq]
  unfold transferNotes at hlast ⊢
  generalize h.prepare i = prepared at hlast hid hkeeps ⊢
  obtain ⟨t, progress, start⟩ := prepared
  subst hid
  have hleft : ((byteNotes (fun e => (note e).filterMap Rig.leftBy) t (h.rig.channel t.id).length
      progress start).map Prod.snd)[k]? = some ([stop].filterMap Rig.leftBy) := by
    have hmap := congrArg (Option.map (List.filterMap Rig.leftBy)) hlast
    rw [byteNotes_filterMap, List.map_map]
    rw [← List.getElem?_map, List.map_map] at hmap
    exact hmap
  have hstops := moveBytes_stops_iff (fun e => (hnote e).lineWork) t _ progress start k _
    hkeeps.inTransfer (hkeeps.ranInside ▸ hrest) hleft
  have hone : ([stop].filterMap Rig.leftBy).getLast? = Rig.leftBy stop := by
    cases h : Rig.leftBy stop <;> simp [h]
  rw [byteNotes_filterMap, List.length_map, hone] at hstops
  exact hstops

theorem setAs_settle (h : Host κ β) (i : ChannelId) :
    (h.rig.channel i).SetAs (h.settle.rig.channel i) :=
  settleWithin_run (R := fun r _ r' => (r.channel i).SetAs (r'.channel i)) note
    (fun _ => .refl _) (fun hfirst hrest => hfirst.trans hrest) settleLimit
    fun e _ => (hnote e).setAs i

theorem address_fire (e : Host κ β) (i : ChannelId) :
    ((Schedule.fire e).rig.channel i).address = (e.rig.channel i).address :=
  ((hnote e).setAs i).address_eq

/-- The count of a direct channel belongs to the transfer. -/
theorem totalAdded_direct {h : Host κ β} {i : ChannelId}
    (hdirect : (h.rig.channel i).control.indirect = false) :
    totalAdded i (h.transferNotes note i) = 0 := by
  obtain ⟨hchannel, -, -, -⟩ := h.round_prepare i
  have hid := h.prepare_id i
  unfold transferNotes
  generalize h.prepare i = prepared at hchannel hid ⊢
  obtain ⟨t, progress, start⟩ := prepared
  subst hid
  apply totalAdded_eq_zero
  intro byte hbyte
  obtain ⟨hdone, -, -⟩ := byteNotes_induction
    (P := fun h : Host κ β => (h.rig.channel t.id).control.indirect = false)
    (fun progress h hdirect => by
      rw [channel_byteDone, if_pos rfl]
      exact hdirect)
    (fun h hdirect => by
      have hset := setAs_settle hnote (h.spend slowAccess) t.id
      show ((h.spend slowAccess).settle.rig.channel t.id).control.indirect = false
      rw [hset.control_eq]
      exact hdirect)
    (show (start.rig.channel t.id).control.indirect = false from hchannel t.id ▸ hdirect)
    byte hbyte
  have hcount := (setAs_settle hnote (byte.1.spend slowAccess) t.id).count_eq hdone
  rw [added, hcount]
  exact UInt16.sub_self _

/-- The events behind the first bytes are apart from the channel if their requests are. -/
theorem apart_before {h : Host κ β} {i : ChannelId} {k : Nat}
    (hbefore : ∀ stops ∈ ((h.transferNotes note i).map Prod.snd).take k,
      ∀ s ∈ stops, ¬ Rig.WorksOn i s) :
    ∀ e ∈ ((h.transferNotes (fun e => [e]) i).take k).flatMap Prod.snd,
      Rig.Apart i e.rig (Schedule.fire e).rig := by
  intro e he
  obtain ⟨byte, hbyte, he⟩ := List.mem_flatMap.mp he
  refine (hnote e).apart fun stop hstop => ?_
  refine hbefore (byte.2.flatMap note) ?_ stop (List.mem_flatMap.mpr ⟨e, he, hstop⟩)
  rw [transferNotes_events, List.map_map, ← List.map_take]
  exact List.mem_map_of_mem (f := Prod.snd ∘ _) hbyte

end Host

namespace Host

variable {κ β : Type} [Buses β] [Schedule κ (Logged β)]

/-- The accesses of a transfer with `k + 1` bytes are the first ones of the transfer without events,
if the events are apart from its channel but for those behind the last byte. -/
theorem accesses_take (hbase : ∀ (a : Address) (b b' : β),
      (Buses.blockPointer a b').1 = (Buses.blockPointer a b).1)
    {h : Host κ (Logged β)} {i : ChannelId} (hrest : i ∉ h.rig.controller.activity.ranInside)
    {k : Nat} (hlength : (h.transferNotes (fun e => [e]) i).length = k + 1)
    (hevents : ∀ e ∈ ((h.transferNotes (fun e => [e]) i).take k).flatMap Prod.snd,
      Rig.Apart i e.rig (Schedule.fire e).rig) :
    h.accesses i = ((⟨h.rig, ⟨⟩⟩ : Host NoEvents (Logged β)).accesses i).take (k + 1) := by
  obtain ⟨d, hkeeps⟩ := h.keeps_prepare i
  have hid := h.prepare_id i
  unfold accesses
  rw [h.prepare_schedule (NoEvents.mk) i]
  dsimp only
  split
  · rfl
  unfold transferNotes at hlength hevents
  generalize h.prepare i = prepared at hid hkeeps hlength hevents ⊢
  obtain ⟨t, progress, start⟩ := prepared
  subst hid
  have hran : t.id ∉ start.rig.controller.activity.ranInside := hkeeps.ranInside ▸ hrest
  have htake := byteAccesses_take hbase t k (n := (h.rig.channel t.id).length) (p := progress)
    (h := start) (g := (⟨start.rig, ⟨⟩⟩ : Host NoEvents (Logged β))) rfl (.refl t.id start.rig)
    hran hran hevents (fun e _ => .done e.rig)
  rw [← htake, List.take_of_length_le]
  rw [length_byteAccesses (fun e => [e])]
  exact Nat.le_of_eq hlength

end Host

/-- A request leaves the channels that it has work behind, unless their table ends at once. -/
theorem Rig.WorksOn.left_iff {β : Type} [Buses β] {i : ChannelId} {stop : Stop β}
    (hworks : Rig.WorksOn i stop) :
    (∃ m, Rig.leftBy stop = some m ∧ i ∈ m) ↔ ¬ Rig.EndsAtOnce i stop := by
  obtain ⟨s, q⟩ := stop
  match q with
  | some (.line m) =>
      constructor
      · rintro - ⟨hframe, -⟩
        cases hframe
      · intro _
        exact ⟨m, rfl, hworks⟩
  | some .frame =>
      have hended := Rig.mem_ended_beginFrame (r := s) (i := i)
      constructor
      · rintro ⟨m, hm, hleft⟩ ⟨-, hends⟩
        cases hm
        exact (hended.mp hends).2 hleft
      · intro hends
        refine ⟨_, rfl, Decidable.not_not.mp fun hleft => hends ⟨rfl, ?_⟩⟩
        exact hended.mpr ⟨hworks, hleft⟩
  | some (.enable m) => exact hworks.elim
  | none => exact hworks.elim

open Host in
/-- Where the first work on its channel is the only request behind byte `k`, counted from zero, a
transfer stops there unless the request is a frame that ends the table at once.  If it stops, its
accesses are those of the first `k + 1` bytes of the transfer without events, its address has gone
on by as many steps and the count of a direct channel by as many bytes, the schedule has passed from
event to event untouched, and nothing is left behind for the next transfer.  Where the transfer
moves its bytes at all, the accesses account for its log. -/
theorem runChannel_aborted {κ β : Type} [Buses β] [Schedule κ (Logged β)]
    {note : Host κ (Logged β) → List (Stop (Logged β))}
    (hnote : ∀ e : Host κ (Logged β), Rig.Served e.rig (note e) (Schedule.fire e).rig)
    {h : Host κ (Logged β)} {i : ChannelId} (hrest : i ∉ h.rig.controller.activity.ranInside)
    {k : Nat} {stop : Stop (Logged β)}
    (hbefore : ∀ stops ∈ ((h.transferNotes note i).map Prod.snd).take k,
      ∀ s ∈ stops, ¬ Rig.WorksOn i s)
    (hlast : ((h.transferNotes note i).map Prod.snd)[k]? = some [stop])
    (hworks : Rig.WorksOn i stop) :
    let alone : Host NoEvents (Logged β) := ⟨h.rig, ⟨⟩⟩
    let c := h.rig.channel i
    let c' := (h.runChannel i).2.rig.channel i
    (((h.runChannel i).1 = false ∧ (h.transferNotes note i).length = k + 1) ↔
        ¬ Rig.EndsAtOnce i stop) ∧
      (c.feedsWorkRamItself = false → h.Accounted i) ∧
      (¬ Rig.EndsAtOnce i stop →
        ((∀ (a : Address) (b b' : β),
            (Buses.blockPointer a b').1 = (Buses.blockPointer a b).1) →
          h.accesses i = (alone.accesses i).take (k + 1)) ∧
        c'.address = c.address + UInt16.ofNat (k + 1) * (h.addressStep i).word ∧
        (c.control.indirect = false → c'.count = c.count - UInt16.ofNat (k + 1)) ∧
        Handed h.schedule (h.events i) (h.runChannel i).2.schedule ∧
        (h.runChannel i).2.rig.controller.activity.ranInside = ∅) := by
  intro alone c c'
  have hstops := (stops_behind_iff hnote hrest hlast).trans hworks.left_iff
  refine ⟨hstops, fun hmoves => accounted hmoves fun e _ => address_fire hnote e i,
    fun hends => ?_⟩
  obtain ⟨hfalse, hlength⟩ := hstops.mpr hends
  have hevents : (h.transferNotes (fun e => [e]) i).length = k + 1 := by
    rw [transferNotes_events, List.length_map] at hlength
    exact hlength
  refine ⟨?_, ?_, ?_, handed_runChannel hfalse, (h.resting_runChannel i).ranInside⟩
  · exact fun hbase => accesses_take hbase hrest hevents (apart_before hnote hbefore)
  · rw [← hlength]
    exact address_of_bytes note fun e => address_fire hnote e i
  · intro hdirect
    show ((h.runChannel i).2.rig.channel i).count = _
    rw [count_of_bytes note, totalAdded_direct hnote hdirect, hlength, UInt16.add_zero]

/-! ### A line on the channel -/

/-- The line transfer that comes next. -/
def LineQueue.requests {β : Type} (h : Host LineQueue β) : List (Stop β) :=
  (h.schedule.lines.head?.map fun line => (h.rig, some (.line line.2))).toList

theorem LineQueue.served_fire {β : Type} [Buses β] (h : Host LineQueue β) :
    Rig.Served h.rig (requests h) (Schedule.fire h).rig := by
  obtain ⟨r, ⟨_ | ⟨line, lines⟩⟩⟩ := h
  · exact .done r
  · exact .line line.2 (.done _)

/-- A line on channel 1 leaves a transfer on channel 4 alone, and a line on channel 4 stops it
behind its second byte. -/
theorem amongLines_aborted :
    let h := amongLines [(16, .single 1), (50, .single 4)]
    let alone : Host NoEvents (Logged Board) := ⟨h.rig, ⟨⟩⟩
    (h.runChannel 4).1 = false ∧ (h.transferNotes LineQueue.requests 4).length = 1 + 1 ∧
      h.Accounted 4 ∧ h.accesses 4 = (alone.accesses 4).take (1 + 1) ∧
      ((h.runChannel 4).2.rig.channel 4).address = 2 ∧
      ((h.runChannel 4).2.rig.channel 4).count = 2 := by
  intro h alone
  have hkinds : ((h.transferNotes LineQueue.requests 4).map Prod.snd).map (List.map Prod.snd) =
      [[some (.line (.single 1))], [some (.line (.single 4))]] := by
    decide +kernel
  obtain ⟨s₁, s₂, hdrains⟩ : ∃ s₁ s₂, (h.transferNotes LineQueue.requests 4).map Prod.snd =
      [[(s₁, some (.line (.single 1)))], [(s₂, some (.line (.single 4)))]] := by
    generalize (h.transferNotes LineQueue.requests 4).map Prod.snd = drains at hkinds ⊢
    simp only [List.map_eq_cons_iff, List.map_eq_nil_iff, Prod.exists] at hkinds
    obtain ⟨_, _, rfl, ⟨s₁, _, _, rfl, rfl, rfl⟩, _, _, rfl, ⟨s₂, _, _, rfl, rfl, rfl⟩, rfl⟩ :=
      hkinds
    exact ⟨s₁, s₂, rfl⟩
  have hbefore : ∀ stops ∈ ((h.transferNotes LineQueue.requests 4).map Prod.snd).take 1,
      ∀ s ∈ stops, ¬ Rig.WorksOn 4 s := by
    rw [hdrains]
    simp [Rig.WorksOn]
  have hworks : Rig.WorksOn 4 (s₂, some (.line (.single 4))) :=
    show (4 : ChannelId) ∈ ChannelMask.single 4 by decide
  have hends : ¬ Rig.EndsAtOnce 4 (s₂, some (.line (.single 4))) := by
    rintro ⟨hframe, -⟩
    cases hframe
  obtain ⟨hstops, haccounted, hclean⟩ := runChannel_aborted LineQueue.served_fire (h := h) (i := 4)
    (k := 1) (by decide +kernel) hbefore (by rw [hdrains]; rfl) hworks
  obtain ⟨haccesses, haddress, hcount, -, -⟩ := hclean hends
  obtain ⟨hfalse, hlength⟩ := hstops.mpr hends
  refine ⟨hfalse, hlength, haccounted (by decide), haccesses fun _ _ _ => rfl, ?_, ?_⟩
  · rw [haddress]
    decide +kernel
  · rw [hcount (by decide +kernel)]
    decide +kernel

/-! ### A frame that ends the table -/

/-- The request that the beam makes with its event. -/
def Beam.requests {β : Type} (h : Host Beam β) : List (Stop β) :=
  match h.schedule.event with
  | .beginFrame => [(h.rig, some .frame)]
  | .runLine =>
    let active := h.rig.controller.active
    if active = ∅ then [] else [(h.rig, some (.line active))]
  | .endLine => []

theorem Beam.served_fire {β : Type} [Buses β] (h : Host Beam β) :
    Rig.Served h.rig (requests h) (Schedule.fire h).rig := by
  show Rig.Served h.rig (requests h) (fire h).rig
  unfold requests fire
  cases h.schedule.event with
  | beginFrame => exact .frame (.done _)
  | runLine =>
      dsimp only
      split
      · exact .done h.rig
      · exact .line _ (.done _)
  | endLine =>
      have hended := Rig.Served.done (h.rig.spend (-cyclesPerLine))
      exact .aside (by rfl) hended

/-- Channel 0, enabled for a direct table, is about to send ten bytes.  Behind the second of them
the frame begins, and finds the end of the table at the address of the third. -/
def endingDirect : Host Beam (Logged Board) where
  rig :=
    { controller :=
        { (Controller.powerOn .standard).setChannel (channelNumber 0)
            { Channel.powerOn with
              control := .ofByte 0x00, port := 0x21, bank := 0x7E, address := 0x1000, count := 10 }
          with enabled := .single (channelNumber 0), active := .single (channelNumber 0) }
      buses := Logged.start (Board.powerOn.load 0x7E1000 [0x10, 0x11, 0x00, 0x12])
      cycles := 0 }
  schedule := .powerOn

/-- The frame is the only work on channel 0 that the beam comes with, and the transfer goes on to
its end. -/
theorem endingDirect_completes :
    ((endingDirect.transferNotes Beam.requests 0).map fun byte =>
        byte.2.map fun stop => (stop.2, decide (Rig.WorksOn 0 stop))) =
      [[], [(some .frame, true)], [], [], [], [], [], [], [], []] ∧
    (endingDirect.rig.channel 0).control.indirect = false ∧
    (0 : ChannelId) ∉ endingDirect.rig.controller.activity.ranInside ∧
    (endingDirect.runChannel 0).1 = true ∧
    ∀ e ∈ endingDirect.events 0, Rig.Served e.rig (Beam.requests e) (Schedule.fire e).rig :=
  ⟨by decide +kernel, by decide, by decide, by decide +kernel, fun e _ => Beam.served_fire e⟩

end DmaController
