import DmaController.Console.Board
import DmaController.Proofs.Transfer.Accesses
import DmaController.Proofs.Transfer.Collision

/-! # A transfer among lines of other channels

Line transfers that run between the bytes of a general transfer work on the same controller and the
same buses.  As long as none of them concerns its channel (`Rig.Apart`), they do not show in what
the transfer does: it moves all its bytes, between the same addresses and registers, by the same
looks at memory and with the same word on work RAM for each (`Access`), as it does when no event
disturbs it (`runChannel_undisturbed`).  Between what the lines have noted, these accesses are all
that the log of its run has (`Host.Accounted`).

The two runs are taken through the bytes in step.  What they have in common is little (`Beside`):
the buses may hold anything, and what was settled for a stretch may differ in whether video
addresses are rearranged, which `Progress.plain` leaves out. -/

namespace DmaController

/-! ### Events that do not concern a channel -/

/-- From `r` to `r'` events have worked on the rig: lines that were not given channel `i`, frames
for which it was not enabled, and work that left the controller alone. -/
inductive Rig.Apart {β : Type} [Buses β] (i : ChannelId) : Rig β → Rig β → Prop
  | done (r : Rig β) : Rig.Apart i r r
  | aside {r r' r'' : Rig β} (controller : r'.controller = r.controller)
      (rest : Rig.Apart i r' r'') : Rig.Apart i r r''
  | line {r r' : Rig β} {m : ChannelMask} (notMem : i ∉ m)
      (rest : Rig.Apart i (r.runLine m).2 r') : Rig.Apart i r r'
  | frame {r r' : Rig β} (notMem : i ∉ r.controller.enabled)
      (rest : Rig.Apart i r.beginFrame r') : Rig.Apart i r r'

/-- Two rigs that are alike in what a general transfer of channel `i` goes by. -/
structure Rig.Beside {β : Type} (i : ChannelId) (r s : Rig β) : Prop where
  address : (s.channel i).address = (r.channel i).address
  count : (s.channel i).count = (r.channel i).count
  taken : s.controller.activity.workRamTaken = r.controller.activity.workRamTaken

namespace Rig

variable {β : Type} {i : ChannelId} {r r' r'' s : Rig β}

theorem Beside.refl (i : ChannelId) (r : Rig β) : Beside i r r := ⟨rfl, rfl, rfl⟩

theorem Beside.symm (h : Beside i r s) : Beside i s r :=
  ⟨h.address.symm, h.count.symm, h.taken.symm⟩

theorem Beside.trans (h : Beside i r r') (h' : Beside i r' r'') : Beside i r r'' :=
  ⟨h'.address.trans h.address, h'.count.trans h.count, h'.taken.trans h.taken⟩

theorem Beside.of_controller (h : s.controller = r.controller) : Beside i r s := by
  refine ⟨?_, ?_, ?_⟩ <;> simp only [Rig.channel, h]

variable [Buses β]

theorem Beside.line {m : ChannelMask} (hi : i ∉ m) : Beside i r (r.runLine m).2 := by
  have hchannel := channel_runLine_of_notMem (r := r) hi
  exact ⟨by rw [hchannel], by rw [hchannel], workRamTaken_runLine r m⟩

theorem Beside.frame (hi : i ∉ r.controller.enabled) : Beside i r r.beginFrame := by
  have hchannel := channel_beginFrame_of_notMem hi
  exact ⟨by rw [hchannel], by rw [hchannel], workRamTaken_beginFrame r⟩

namespace Apart

theorem trans (h : Apart i r r') (h' : Apart i r' r'') : Apart i r r'' := by
  induction h with
  | done r => exact h'
  | aside hcontroller _ ih => exact .aside hcontroller (ih h')
  | line hi _ ih => exact .line hi (ih h')
  | frame hi _ ih => exact .frame hi (ih h')

theorem beside (h : Apart i r r') : Beside i r r' := by
  induction h with
  | done r => exact .refl i r
  | aside hcontroller _ ih => exact (Beside.of_controller hcontroller).trans ih
  | line hi _ ih => exact (Beside.line hi).trans ih
  | frame hi _ ih => exact (Beside.frame hi).trans ih

/-- Nothing of them is left for the transfer of channel `i` to find. -/
theorem notMem_ranInside (h : Apart i r r') (hi : i ∉ r.controller.activity.ranInside) :
    i ∉ r'.controller.activity.ranInside := by
  induction h with
  | done r => exact hi
  | aside hcontroller _ ih => exact ih (hcontroller ▸ hi)
  | @line r r' m hm _ ih =>
      apply ih
      rw [ranInside_runLine]
      split
      · exact hm
      · exact ChannelMask.not_mem_empty i
  | @frame r r' henabled _ ih =>
      apply ih
      rw [ranInside_beginFrame]
      split
      · exact henabled ∘ enabled_of_mem_beginFrame
      · exact ChannelMask.not_mem_empty i

end Apart

end Rig

/-! ### What is settled for a stretch -/

/-- The route, but for whether video addresses are rearranged. -/
def Route.plain : Route → Route
  | video high _ => video high false
  | videoPair _ => videoPair false
  | route => route

theorem Route.registers_plain (route : Route) : route.plain.registers = route.registers := by
  cases route <;> rfl

theorem Route.plain_choose (mode : UnitMode) (port : UInt8) (remapped remapped' : Bool) :
    (choose mode port remapped').plain = (choose mode port remapped).plain := by
  unfold choose
  split
  · split
    · rfl
    split
    · rfl
    split
    · rfl
    split
    · rfl
    split <;> rfl
  · split <;> rfl

/-- The stretch with its route made plain. -/
def Stretch.plain (s : Stretch) : Stretch := { s with route := s.route.plain }

/-- Stretches that are alike when made plain differ in the route at most. -/
theorem Stretch.of_plain {s s' : Stretch} (h : s'.plain = s.plain) :
    s'.source = s.source ∧ s'.route.plain = s.route.plain ∧ s'.taken = s.taken ∧
      s'.left = s.left := by
  obtain ⟨source, route, taken, left⟩ := s
  obtain ⟨source', route', taken', left'⟩ := s'
  simpa only [plain, Stretch.mk.injEq] using h

/-- What a transfer carries along, with its route made plain. -/
def Progress.plain : Progress → Progress
  | sending place position s => sending place position s.plain
  | progress => progress

/-! ### One byte -/

section

variable {β : Type} [Buses β] {r s : Rig (Logged β)} {i : ChannelId}

theorem Route.controller_deliver (route : Route) (register : UInt16) (offset v : UInt8)
    (taken : Bool) (r : Rig (Logged β)) :
    (route.deliver register offset v taken r).controller = r.controller := by
  cases route with
  | videoPair remapped =>
      unfold deliver
      dsimp only
      split <;> rfl
  | workRam => cases taken <;> rfl
  | _ => rfl

theorem Rig.Beside.setWorkRamTaken (h : Rig.Beside i r s) (taken : Bool) :
    Rig.Beside i (r.setWorkRamTaken taken) (s.setWorkRamTaken taken) :=
  ⟨h.address, h.count, rfl⟩

namespace Transfer

variable (t : Transfer)

theorem controller_sendByte (place : UnitCursor) (position : UInt16) (stretch : Stretch)
    (r : Rig (Logged β)) : (t.sendByte place position stretch r).controller = r.controller := by
  have hfetch : (t.fetch stretch.source position r).2.controller = r.controller := by
    unfold fetch
    cases stretch.source <;> rfl
  exact (stretch.route.controller_deliver _ _ _ _ _).trans hfetch

variable (hbase : ∀ (a : Address) (b b' : β),
  (Buses.blockPointer a b').1 = (Buses.blockPointer a b).1)

include hbase

/-- A stretch is settled alike wherever block pointers depend on the address alone. -/
theorem openStretch_beside (offset : UInt16) (left : Nat) (h : Rig.Beside i r s) :
    (t.openStretch offset left s).1.plain = (t.openStretch offset left r).1.plain ∧
      Rig.Beside i (t.openStretch offset left r).2 (t.openStretch offset left s).2 := by
  have hpointer : (s.blockPointer (.of t.channel.bank offset)).1 =
      (r.blockPointer (.of t.channel.bank offset)).1 := hbase _ r.buses.inner s.buses.inner
  have hasked : Rig.Beside i (r.blockPointer (.of t.channel.bank offset)).2
      (s.blockPointer (.of t.channel.bank offset)).2 := ⟨h.address, h.count, h.taken⟩
  unfold openStretch
  generalize s.blockPointer (.of t.channel.bank offset) = got' at hpointer hasked ⊢
  generalize r.blockPointer (.of t.channel.bank offset) = got at hpointer hasked ⊢
  obtain ⟨base, r⟩ := got
  obtain ⟨base', s⟩ := got'
  obtain rfl : base' = base := hpointer
  refine ⟨?_, hasked.setWorkRamTaken _⟩
  cases base' with
  | none => rfl
  | some p =>
      simp only [settleStretch, Stretch.plain]
      rw [Route.plain_choose]

theorem currentStretch_beside {stretch stretch' : Stretch} (hplain : stretch'.plain = stretch.plain)
    (h : Rig.Beside t.id r s) :
    (t.currentStretch stretch' s).1.plain = (t.currentStretch stretch r).1.plain ∧
      Rig.Beside t.id (t.currentStretch stretch r).2 (t.currentStretch stretch' s).2 := by
  obtain ⟨-, -, -, hleft⟩ := Stretch.of_plain hplain
  unfold currentStretch
  rw [hleft, h.address]
  split
  · exact t.openStretch_beside hbase _ blockSize h
  · exact ⟨hplain, h⟩

/-- A block is opened with the same look. -/
theorem stretchLooks_beside {stretch stretch' : Stretch} (hplain : stretch'.plain = stretch.plain)
    (h : Rig.Beside t.id r s) : t.stretchLooks stretch' s = t.stretchLooks stretch r := by
  obtain ⟨-, -, -, hleft⟩ := Stretch.of_plain hplain
  have hpointer : (Buses.blockPointer (.of t.channel.bank (r.channel t.id).address) s.buses).1 =
      (Buses.blockPointer (.of t.channel.bank (r.channel t.id).address) r.buses).1 :=
    hbase _ r.buses.inner s.buses.inner
  rw [stretchLooks, stretchLooks, hleft, h.address, openingLook, openingLook, hpointer]

/-- A byte is moved in the same way, and what is carried on is the same. -/
theorem moveByte_beside {p q : Progress} (hplain : q.plain = p.plain) (h : Rig.Beside t.id r s) :
    (t.moveByte q s).1.plain = (t.moveByte p r).1.plain ∧
      Rig.Beside t.id (t.moveByte p r).2 (t.moveByte q s).2 ∧
      t.access q s = t.access p r := by
  suffices hmoved : (t.moveByte q s).1.plain = (t.moveByte p r).1.plain ∧
      Rig.Beside t.id (t.moveByte p r).2 (t.moveByte q s).2 ∧
      t.place q s = t.place p r ∧ t.registers q s = t.registers p r ∧
      t.looks q s = t.looks p r ∧ t.stores q s = t.stores p r by
    obtain ⟨hcarried, hbeside, hplace, hregisters, hlooks, hstores⟩ := hmoved
    exact ⟨hcarried, hbeside,
      by rw [access_eq, access_eq, hplace, hregisters, hbeside.taken, hlooks, hstores]⟩
  cases p with
  | idle =>
      cases q with
      | idle => exact ⟨rfl, h, by simp only [place, h.address], rfl, rfl, rfl⟩
      | collecting _ => cases hplain
      | sending _ _ _ => cases hplain
  | collecting place =>
      cases q with
      | idle => cases hplain
      | sending _ _ _ => cases hplain
      | collecting place' =>
          cases hplain
          refine ⟨rfl, ?_, by simp only [Transfer.place, h.address], rfl, rfl,
            by simp only [stores, h.address]⟩
          simp only [moveByte, collectByte, h.address]
          split
          · have htaken := h.setWorkRamTaken (decide ((r.channel t.id).address < 0x2000))
            exact ⟨htaken.address, htaken.count, htaken.taken⟩
          · exact ⟨h.address, h.count, h.taken⟩
  | sending place position stretch =>
      cases q with
      | idle => cases hplain
      | collecting _ => cases hplain
      | sending place' position' stretch' =>
          obtain ⟨rfl, rfl, hstretch⟩ := Progress.sending.inj hplain
          obtain ⟨hcurrent, hbeside⟩ := t.currentStretch_beside hbase hstretch h
          obtain ⟨hsource, hroute, htaken, hleft⟩ := Stretch.of_plain hcurrent
          refine ⟨?_, ?_, rfl, ?_, ?_, rfl⟩
          · simp only [moveByte, Progress.plain, Stretch.plain, hroute, htaken, hleft, hsource]
          · exact ((Rig.Beside.of_controller (t.controller_sendByte _ _ _ _)).symm.trans
              hbeside).trans (.of_controller (t.controller_sendByte _ _ _ _))
          · simp only [registers]
            rw [← Route.registers_plain, hroute, htaken, Route.registers_plain]
          · rw [looks, looks, t.stretchLooks_beside hbase hstretch h, hsource]

end Transfer

end

/-! ### All bytes -/

namespace Host

section

variable {κ β : Type} [Buses β] [Schedule κ β]

/-- A byte passes by among events apart from its channel. -/
theorem passByte_apart {i : ChannelId} {h : Host κ β}
    (hrest : i ∉ h.rig.controller.activity.ranInside)
    (hevents : ∀ e ∈ settleNotes (fun e => [e]) settleLimit (h.spend slowAccess),
      Rig.Apart i e.rig (Schedule.fire e).rig) :
    (h.passByte i).1 = true ∧ Rig.Beside i h.rig (h.passByte i).2.rig ∧
      i ∉ (h.passByte i).2.rig.controller.activity.ranInside := by
  have hsettled : Rig.Apart i (h.spend slowAccess).rig (h.spend slowAccess).settle.rig :=
    settleWithin_run (R := fun r _ r' => Rig.Apart i r r') (fun e => [e]) .done .trans
      settleLimit hevents
  have hran := hsettled.notMem_ranInside hrest
  have hbeside := hsettled.beside
  exact ⟨passByte_iff.mpr hran, ⟨hbeside.address, hbeside.count, hbeside.taken⟩,
    ChannelMask.not_mem_empty i⟩

end

variable {κ κ' β : Type} [Buses β] [Schedule κ (Logged β)] [Schedule κ' (Logged β)]

section

variable (hbase : ∀ (a : Address) (b b' : β),
    (Buses.blockPointer a b').1 = (Buses.blockPointer a b).1) (t : Transfer)

include hbase

/-- Two runs make the same access for a byte, and among events apart from their channel both go
on. -/
theorem byte_beside {p q : Progress} {h : Host κ (Logged β)} {g : Host κ' (Logged β)}
    (hplain : q.plain = p.plain) (hbeside : Rig.Beside t.id h.rig g.rig)
    (hrest : t.id ∉ h.rig.controller.activity.ranInside)
    (hrest' : t.id ∉ g.rig.controller.activity.ranInside)
    (hevents : ∀ e ∈ settleNotes (fun e => [e]) settleLimit ((h.byteDone t p).spend slowAccess),
      Rig.Apart t.id e.rig (Schedule.fire e).rig)
    (hevents' : ∀ e ∈ settleNotes (fun e => [e]) settleLimit ((g.byteDone t q).spend slowAccess),
      Rig.Apart t.id e.rig (Schedule.fire e).rig) :
    (t.moveByte q g.rig).1.plain = (t.moveByte p h.rig).1.plain ∧
      Rig.Beside t.id ((h.byteDone t p).passByte t.id).2.rig
        ((g.byteDone t q).passByte t.id).2.rig ∧
      (((h.byteDone t p).passByte t.id).1 = true ∧
        t.id ∉ ((h.byteDone t p).passByte t.id).2.rig.controller.activity.ranInside) ∧
      (((g.byteDone t q).passByte t.id).1 = true ∧
        t.id ∉ ((g.byteDone t q).passByte t.id).2.rig.controller.activity.ranInside) := by
  obtain ⟨hcarried, hmoved, -⟩ := t.moveByte_beside hbase hplain hbeside
  have hdone : Rig.Beside t.id (h.byteDone t p).rig (g.byteDone t q).rig := by
    refine ⟨?_, ?_, hmoved.taken⟩
    · simp only [channel_byteDone, if_true, Channel.countDown, hbeside.address]
    · simp only [channel_byteDone, if_true, Channel.countDown, hbeside.count]
  obtain ⟨hgo, hpassed, hran⟩ := passByte_apart (h := h.byteDone t p)
    ((keeps_moveByte t p h.rig).ranInside ▸ hrest) hevents
  obtain ⟨hgo', hpassed', hran'⟩ := passByte_apart (h := g.byteDone t q)
    ((keeps_moveByte t q g.rig).ranInside ▸ hrest') hevents'
  exact ⟨hcarried, (hpassed.symm.trans hdone).trans hpassed', ⟨hgo, hran⟩, hgo', hran'⟩

/-- Two runs over the same bytes, each among events apart from their channel, make the same
accesses. -/
theorem moveBytes_beside (n : Nat) :
    ∀ {p q : Progress} {h : Host κ (Logged β)} {g : Host κ' (Logged β)},
      q.plain = p.plain → Rig.Beside t.id h.rig g.rig →
      t.id ∉ h.rig.controller.activity.ranInside → t.id ∉ g.rig.controller.activity.ranInside →
      (∀ e ∈ (byteNotes (fun e => [e]) t n p h).flatMap Prod.snd,
        Rig.Apart t.id e.rig (Schedule.fire e).rig) →
      (∀ e ∈ (byteNotes (fun e => [e]) t n q g).flatMap Prod.snd,
        Rig.Apart t.id e.rig (Schedule.fire e).rig) →
      (moveBytes t n p h).1 = true ∧
        Rig.Beside t.id (moveBytes t n p h).2.rig (moveBytes t n q g).2.rig ∧
        byteAccesses t n q g = byteAccesses t n p h := by
  induction n with
  | zero => exact fun _ hbeside _ _ _ _ => ⟨rfl, hbeside, rfl⟩
  | succ n ih =>
      intro p q h g hplain hbeside hrest hrest' hevents hevents'
      rw [byteNotes, List.flatMap_cons] at hevents hevents'
      obtain ⟨-, -, haccess⟩ := t.moveByte_beside hbase hplain hbeside
      obtain ⟨hcarried, hpassed, ⟨hgo, hran⟩, hgo', hran'⟩ := byte_beside hbase t hplain hbeside
        hrest hrest' (fun e he => hevents e (List.mem_append_left _ he))
        (fun e he => hevents' e (List.mem_append_left _ he))
      rw [if_pos hgo] at hevents
      rw [if_pos hgo'] at hevents'
      obtain ⟨hlast, hend, hrest⟩ := ih hcarried hpassed hran hran'
        (fun e he => hevents e (List.mem_append_right _ he))
        (fun e he => hevents' e (List.mem_append_right _ he))
      rw [moveBytes_succ, moveBytes_succ, if_pos hgo, if_pos hgo', byteAccesses, byteAccesses,
        if_pos hgo, if_pos hgo', haccess, hrest]
      exact ⟨hlast, hend, rfl⟩

/-- Two runs over the same bytes make the same accesses as far as the events behind them are apart
from their channel, and one byte further. -/
theorem byteAccesses_take (k : Nat) :
    ∀ {n : Nat} {p q : Progress} {h : Host κ (Logged β)} {g : Host κ' (Logged β)},
      q.plain = p.plain → Rig.Beside t.id h.rig g.rig →
      t.id ∉ h.rig.controller.activity.ranInside → t.id ∉ g.rig.controller.activity.ranInside →
      (∀ e ∈ ((byteNotes (fun e => [e]) t n p h).take k).flatMap Prod.snd,
        Rig.Apart t.id e.rig (Schedule.fire e).rig) →
      (∀ e ∈ (byteNotes (fun e => [e]) t n q g).flatMap Prod.snd,
        Rig.Apart t.id e.rig (Schedule.fire e).rig) →
      (byteAccesses t n p h).take (k + 1) = (byteAccesses t n q g).take (k + 1) := by
  induction k with
  | zero =>
      intro n p q h g hplain hbeside _ _ _ _
      obtain ⟨-, -, haccess⟩ := t.moveByte_beside hbase hplain hbeside
      cases n with
      | zero => rfl
      | succ n => rw [byteAccesses, byteAccesses, List.take_succ_cons, List.take_succ_cons, haccess,
          List.take_zero, List.take_zero]
  | succ k ih =>
      intro n p q h g hplain hbeside hrest hrest' hevents hevents'
      cases n with
      | zero => rfl
      | succ n =>
          rw [byteNotes, List.take_succ_cons, List.flatMap_cons] at hevents
          rw [byteNotes, List.flatMap_cons] at hevents'
          obtain ⟨-, -, haccess⟩ := t.moveByte_beside hbase hplain hbeside
          obtain ⟨hcarried, hpassed, ⟨hgo, hran⟩, hgo', hran'⟩ := byte_beside hbase t hplain
            hbeside hrest hrest' (fun e he => hevents e (List.mem_append_left _ he))
            (fun e he => hevents' e (List.mem_append_left _ he))
          rw [if_pos hgo] at hevents
          rw [if_pos hgo'] at hevents'
          rw [byteAccesses, byteAccesses, if_pos hgo, if_pos hgo', List.take_succ_cons,
            List.take_succ_cons, haccess, ih hcarried hpassed hran hran'
              (fun e he => hevents e (List.mem_append_right _ he))
              (fun e he => hevents' e (List.mem_append_right _ he))]

end

end Host

/-! ### Whole transfers -/

/-- A schedule without events. -/
structure NoEvents where

instance {β : Type} : Schedule NoEvents β where
  nextEvent _ := none
  fire h := h

/-- Events that do not concern a channel leave its address alone. -/
theorem Host.address_of_apart {κ β : Type} [Buses β] [Schedule κ β] {h : Host κ β} {i : ChannelId}
    (hevents : ∀ e ∈ h.events i, Rig.Apart i e.rig (Schedule.fire e).rig) :
    ∀ e ∈ h.events i, ((Schedule.fire e).rig.channel i).address = (e.rig.channel i).address :=
  fun e he => (hevents e he).beside.address

/-- A general transfer among events apart from its channel comes to its end, and makes the accesses
that it makes without events, byte by byte, with the same count and address in the end.  Where it
moves its bytes at all, the accesses account for its log. -/
theorem runChannel_undisturbed {κ β : Type} [Buses β] [Schedule κ (Logged β)]
    (hbase : ∀ (a : Address) (b b' : β),
      (Buses.blockPointer a b').1 = (Buses.blockPointer a b).1)
    {h : Host κ (Logged β)} {i : ChannelId}
    (hrest : i ∉ h.rig.controller.activity.ranInside)
    (hevents : ∀ e ∈ h.events i, Rig.Apart i e.rig (Schedule.fire e).rig) :
    let alone : Host NoEvents (Logged β) := ⟨h.rig, ⟨⟩⟩
    (h.runChannel i).1 = true ∧
      h.accesses i = alone.accesses i ∧
      ((h.runChannel i).2.rig.channel i).count = ((alone.runChannel i).2.rig.channel i).count ∧
      ((h.runChannel i).2.rig.channel i).address =
        ((alone.runChannel i).2.rig.channel i).address ∧
      ((h.rig.channel i).feedsWorkRamItself = false → h.Accounted i) := by
  intro alone
  have haccounted : (h.rig.channel i).feedsWorkRamItself = false → h.Accounted i :=
    fun hmoves => Host.accounted hmoves (Host.address_of_apart hevents)
  obtain ⟨d, hkeeps⟩ := h.keeps_prepare i
  have hid := h.prepare_id i
  have halone := h.prepare_schedule (NoEvents.mk) i
  rw [Host.runChannel_eq, Host.runChannel_eq, Host.accesses, Host.accesses]
  unfold Host.events Host.transferNotes at hevents
  rw [show alone.prepare i = _ from halone]
  generalize h.prepare i = prepared at hkeeps hid hevents ⊢
  obtain ⟨t, progress, start⟩ := prepared
  subst hid
  have hran : t.id ∉ start.rig.controller.activity.ranInside := hkeeps.ranInside ▸ hrest
  obtain ⟨hdone, hend, haccesses⟩ := Host.moveBytes_beside hbase t (h.rig.channel t.id).length
    (h := start) (g := (⟨start.rig, ⟨⟩⟩ : Host NoEvents (Logged β))) rfl (.refl t.id start.rig)
    hran hran hevents (fun e _ => .done e.rig)
  dsimp only
  refine ⟨hdone, ?_, ?_, ?_, haccounted⟩
  · rw [haccesses]
  · rw [Host.channel_conclude, Host.channel_conclude]
    exact hend.count.symm
  · rw [Host.channel_conclude, Host.channel_conclude]
    exact hend.address.symm

/-! ### A transfer among lines -/

/-- What events keep of their schedule is true of it at every event of a transfer. -/
theorem Host.events_induction {κ β : Type} [Buses β] [Schedule κ β] {P : κ → Prop}
    (hfire : ∀ e : Host κ β, P e.schedule → P (Schedule.fire e).schedule) {h : Host κ β}
    (hP : P h.schedule) (i : ChannelId) : ∀ e ∈ h.events i, P e.schedule := by
  have hstart : (h.prepare i).2.2.schedule = h.schedule :=
    congrArg (fun prepared => prepared.2.2.schedule) (h.prepare_schedule h.schedule i)
  have hnote : ∀ e : Host κ β, P e.schedule → ∀ x ∈ [e], P x.schedule := by
    intro e hP x hx
    rwa [List.mem_singleton.mp hx]
  unfold events transferNotes
  generalize h.prepare i = prepared at hstart ⊢
  obtain ⟨t, p, start⟩ := prepared
  intro e he
  obtain ⟨byte, hbyte, he⟩ := List.mem_flatMap.mp he
  obtain ⟨hbyteP, hnotes, -⟩ := byteNotes_induction (P := fun h : Host κ β => P h.schedule)
    (fun _ _ hP => hP)
    (fun h hP => settleWithin_induction (P := fun e : Host κ β => P e.schedule) hfire settleLimit
      (h := h.spend slowAccess) hP)
    (show P start.schedule from hstart ▸ hP) byte hbyte
  rw [hnotes] at he
  exact settleNotes_induction (P := fun e : Host κ β => P e.schedule) hfire hnote settleLimit
    (h := byte.1.spend slowAccess) hbyteP e he

/-- Lines that are not given a channel are apart from it. -/
theorem LineQueue.apart_events {β : Type} [Buses β] {h : Host LineQueue β} {i : ChannelId}
    (hq : ∀ line ∈ h.schedule.lines, i ∉ line.2) :
    ∀ e ∈ h.events i, Rig.Apart i e.rig (Schedule.fire e).rig := by
  have hqueues : ∀ e ∈ h.events i, ∀ line ∈ e.schedule.lines, i ∉ line.2 := by
    refine Host.events_induction (P := fun q : LineQueue => ∀ line ∈ q.lines, i ∉ line.2) ?_ hq i
    rintro ⟨r, ⟨_ | ⟨line, lines⟩⟩⟩ he
    · exact he
    · exact fun line hline => he line (List.mem_cons_of_mem _ hline)
  intro e he
  have hlines := hqueues e he
  obtain ⟨r, ⟨_ | ⟨line, lines⟩⟩⟩ := e
  · exact .done r
  · exact .line (hlines line List.mem_cons_self) (.done _)

/-- Channel 4 is about to send four bytes of work RAM, with line transfers to come. -/
def amongLines (lines : List (Int × ChannelMask)) : Host LineQueue (Logged Board) where
  rig :=
    { controller := (Controller.powerOn .standard).setChannel (channelNumber 4)
        { Channel.powerOn with
          control := .ofByte 0x00, port := 0x10, bank := 0x7E, address := 0, count := 4 }
      buses := Logged.start (Board.powerOn.load 0x7E0000 [0, 1, 2, 3])
      cycles := 0 }
  schedule := ⟨lines⟩

/-- Lines on channels 1 and 2 do not disturb a transfer on channel 4. -/
theorem amongLines_undisturbed :
    let h := amongLines [(16, .single 1), (17, .single 2)]
    let alone : Host NoEvents (Logged Board) := ⟨h.rig, ⟨⟩⟩
    ((h.events 4).length = 2 ∧
        (h.accesses 4).map (·.address) = [0x7E0000, 0x7E0001, 0x7E0002, 0x7E0003] ∧
        (h.accesses 4).map (·.registers) = [[0x2110], [0x2110], [0x2110], [0x2110]]) ∧
      (h.runChannel 4).1 = true ∧
      h.accesses 4 = alone.accesses 4 ∧
      ((h.runChannel 4).2.rig.channel 4).count = ((alone.runChannel 4).2.rig.channel 4).count ∧
      ((h.runChannel 4).2.rig.channel 4).address =
        ((alone.runChannel 4).2.rig.channel 4).address ∧
      h.Accounted 4 := by
  intro h alone
  have hlines : (h.events 4).length = 2 ∧
      (h.accesses 4).map (·.address) = [0x7E0000, 0x7E0001, 0x7E0002, 0x7E0003] ∧
      (h.accesses 4).map (·.registers) = [[0x2110], [0x2110], [0x2110], [0x2110]] := by
    decide +kernel
  obtain ⟨hdone, haccesses, hcount, haddress, haccounted⟩ := runChannel_undisturbed (h := h)
    (i := 4) (fun _ _ _ => rfl) (by decide) (LineQueue.apart_events (by decide))
  exact ⟨hlines, hdone, haccesses, hcount, haddress, haccounted (by decide)⟩

end DmaController
