import DmaController.Proofs.Console.Ended
import DmaController.Proofs.Transfer.Forward
import DmaController.Proofs.Transfer.Timeline

/-! # Counting down to the end

With each byte of a general transfer its channel counts down by one and its address steps on.  The
address belongs to the transfer alone, but the count is also the place in the data of an indirect
line transfer, and the events between the bytes may overwrite it.  `added` is what they have added
to it after a byte.  A transfer that came to its end has counted down all of its length, so the
count it leaves is what was added in all (`totalAdded`, `count_runChannel`).

A transfer should not come to its end with another count: if its channel has worked inside of it,
it finds the channel in the set left behind for it, and stops.  So where events have added
something on the beam and the transfer went on, the work was forgotten (`ForgetsWork`): either
another frame or line came after the same byte, or a frame took the channel out of the active ones
because its table ended at once, and left only those behind that were still active
(`countdown_of_completed`).  The end of an indirect table overwrites the count no less than an entry
does (`endingInside_completes`). -/

namespace DmaController

/-! ### Address and count -/

namespace Host

variable {κ β : Type} [Buses β] [Schedule κ β] {γ : Type}

/-- What the events after a byte have added to the count of channel `i`. -/
def added (i : ChannelId) (byte : Host κ β × List γ) : UInt16 :=
  ((byte.1.spend slowAccess).settle.rig.channel i).count - (byte.1.rig.channel i).count

/-- What the events after all these bytes have added to the count of channel `i`. -/
def totalAdded (i : ChannelId) (bytes : List (Host κ β × List γ)) : UInt16 :=
  bytes.foldr (fun byte total => added i byte + total) 0

omit [Buses β] in
theorem totalAdded_cons (i : ChannelId) (byte : Host κ β × List γ)
    (bytes : List (Host κ β × List γ)) :
    totalAdded i (byte :: bytes) = added i byte + totalAdded i bytes := rfl

omit [Buses β] in
theorem totalAdded_eq_zero {i : ChannelId} {bytes : List (Host κ β × List γ)}
    (h : ∀ byte ∈ bytes, added i byte = 0) : totalAdded i bytes = 0 := by
  induction bytes with
  | nil => rfl
  | cons byte bytes ih =>
      obtain ⟨hfirst, hrest⟩ := List.forall_mem_cons.mp h
      rw [totalAdded_cons, hfirst, ih hrest, UInt16.zero_add]

/-- Every byte counts down by one, and the events add what they add. -/
theorem Timeline.count {note : Host κ β → List γ} {t : Transfer} {h h' : Host κ β}
    {bytes : List (Host κ β × List γ)} (line : Timeline note t h bytes h') :
    (h'.rig.channel t.id).count =
      (h.rig.channel t.id).count - UInt16.ofNat bytes.length + totalAdded t.id bytes := by
  induction line with
  | stop h =>
      show (h.rig.channel t.id).count = (h.rig.channel t.id).count - 0 + 0
      rw [UInt16.sub_zero, UInt16.add_zero]
  | @byte h done h' bytes moved _ ih =>
      have hcounted : (done.rig.channel t.id).count = (h.rig.channel t.id).count - 1 := by
        rw [moved.channel, if_pos rfl]
        rfl
      have hpassed : (done.passByte t.id).2.rig.channel t.id =
          (done.spend slowAccess).settle.rig.channel t.id := rfl
      have hsum : ∀ c w k rest : UInt16, w - k + rest = c - (k + 1) + (w - (c - 1) + rest) := by
        grind
      rw [ih, hpassed, totalAdded_cons, added, hcounted, List.length_cons, UInt16.ofNat_add]
      exact hsum _ _ _ _

/-- Whether it came to its end or not, a transfer leaves the count that is left of its bytes and of
what its events have added up. -/
theorem count_of_bytes (note : Host κ β → List γ) (h : Host κ β) (i : ChannelId) :
    ((h.runChannel i).2.rig.channel i).count =
      (h.rig.channel i).count - UInt16.ofNat (h.transferNotes note i).length +
        totalAdded i (h.transferNotes note i) := by
  obtain ⟨stop, line, hstop⟩ := h.timeline_runChannel note i
  obtain ⟨hchannel, -, -, -⟩ := h.round_prepare i
  have hcount := line.count
  rw [prepare_id, hchannel] at hcount
  rw [hstop, channel_conclude, hcount]

/-- Whether it came to its end or not, a transfer has stepped its address on with every byte, if the
events leave it alone. -/
theorem address_of_bytes (note : Host κ β → List γ) {h : Host κ β} {i : ChannelId}
    (hfire : ∀ e : Host κ β, ((Schedule.fire e).rig.channel i).address =
      (e.rig.channel i).address) :
    ((h.runChannel i).2.rig.channel i).address =
      (h.rig.channel i).address +
        UInt16.ofNat (h.transferNotes note i).length * (h.addressStep i).word := by
  obtain ⟨stop, line, hstop⟩ := h.timeline_runChannel note i
  obtain ⟨hchannel, -, -, -⟩ := h.round_prepare i
  have haddress := line.address (by rw [prepare_id]; exact hfire)
  rw [prepare_id, prepare_step, hchannel] at haddress
  rw [hstop, channel_conclude, haddress]

/-- A transfer that came to its end leaves the count that its events have added up. -/
theorem count_runChannel (note : Host κ β → List γ) {h : Host κ β} {i : ChannelId}
    (hdone : (h.runChannel i).1 = true) :
    ((h.runChannel i).2.rig.channel i).count =
      totalAdded i (h.transferNotes note i) := by
  rw [count_of_bytes note, (h.length_transferNotes note i).2 hdone, Channel.count_sub_length,
    UInt16.zero_add]

theorem address_runChannel {h : Host κ β} {i : ChannelId}
    (hfire : ∀ e : Host κ β, ((Schedule.fire e).rig.channel i).address =
      (e.rig.channel i).address)
    (hdone : (h.runChannel i).1 = true) :
    ((h.runChannel i).2.rig.channel i).address =
      (h.rig.channel i).address +
        UInt16.ofNat (h.rig.channel i).length * (h.addressStep i).word := by
  rw [address_of_bytes (fun e => [e]) hfire, (h.length_transferNotes _ i).2 hdone]

end Host

/-! ### Work that is forgotten -/

namespace Rig

variable {β : Type} [Buses β]

/-- The set that the request at a stop leaves behind for a general transfer. -/
def leftBy : Stop β → Option ChannelMask
  | (_, some (.line m)) => some m
  | (s, some .frame) => some s.beginFrame.controller.active
  | _ => none

/-- The request at a stop has channel `i` work. -/
def WorksOn (i : ChannelId) : Stop β → Prop
  | (_, some (.line m)) => i ∈ m
  | (s, some .frame) => i ∈ s.controller.enabled
  | _ => False

/-- The request at a stop has channel `i` work, which is indirect. -/
def Recounts (i : ChannelId) (stop : Stop β) : Prop :=
  WorksOn i stop ∧ (stop.1.channel i).control.indirect = true

/-- A request that has no indirect channel `i` work leaves its count alone. -/
theorem count_serve {r : Rig β} {q : LineRequest} {i : ChannelId}
    (h : ¬ Recounts i (r, some q)) : ((r.serve q).2.channel i).count = (r.channel i).count := by
  have hdirect : WorksOn i (r, some q) → (r.channel i).control.indirect = false := by
    intro hworks
    rw [← Bool.not_eq_true]
    exact fun hindirect => h ⟨hworks, hindirect⟩
  cases q with
  | enable m => exact congrArg Channel.count (Controller.channel_enable r.controller m i)
  | frame =>
      show (r.beginFrame.channel i).count = _
      by_cases hi : i ∈ r.controller.enabled
      · exact (setAs_beginFrame r i).count_eq (hdirect hi)
      · rw [channel_beginFrame_of_notMem hi]
  | line m =>
      show ((r.runLine m).2.channel i).count = _
      by_cases hi : i ∈ m
      · exact (setAs_runLine r m i).count_eq (hdirect hi)
      · rw [channel_runLine_of_notMem hi]

/-- Among these stops a request has the indirect channel `i` work, and what it leaves behind does
not tell: it is a frame, and the table of the channel has ended at once, or another request
follows. -/
def ForgetsWork (i : ChannelId) (stops : List (Stop β)) : Prop :=
  ∃ before stop after, stops = before ++ stop :: after ∧ Recounts i stop ∧
    (stop.2 = some .frame ∧ i ∉ stop.1.beginFrame.controller.active ∨
      ∃ next ∈ after, next.2 ≠ none)

/-- Where the last set left behind has not the channel, its work was forgotten. -/
theorem forgetsWork_of_notMem {i : ChannelId} {stops : List (Stop β)}
    (hworks : ∃ stop ∈ stops, Recounts i stop)
    (hleft : ∀ m, (stops.filterMap leftBy).getLast? = some m → i ∉ m) : ForgetsWork i stops := by
  obtain ⟨stop, hstop, hrecounts⟩ := hworks
  obtain ⟨before, after, rfl⟩ := List.append_of_mem hstop
  refine ⟨before, stop, after, rfl, hrecounts, ?_⟩
  by_cases hafter : ∃ next ∈ after, next.2 ≠ none
  · exact .inr hafter
  -- Nothing follows, so the last set is the one that this request has left.
  have hnone : after.filterMap leftBy = [] := by
    rw [List.filterMap_eq_nil_iff]
    rintro ⟨s, q⟩ hnext
    cases q with
    | none => rfl
    | some q => exact absurd ⟨_, hnext, Option.some_ne_none q⟩ hafter
  have hlast : ∀ m, leftBy stop = some m → i ∉ m := by
    intro m hm
    apply hleft m
    rw [List.filterMap_append, List.filterMap_cons_some hm, hnone, List.getLast?_append]
    rfl
  left
  obtain ⟨s, q⟩ := stop
  match q with
  | some (.line m) => exact absurd hrecounts.1 (hlast m rfl)
  | some .frame => exact ⟨rfl, hlast _ rfl⟩
  | some (.enable m) => exact hrecounts.1.elim
  | none => exact hrecounts.1.elim

end Rig

/-! ### The beam -/

namespace Beam

theorem address_fire {β : Type} [Buses β] (e : Host Beam β) (i : ChannelId) :
    ((fire e).rig.channel i).address = (e.rig.channel i).address :=
  fire_induction (P := fun r => (r.channel i).address = (e.rig.channel i).address) rfl
    (Rig.setAs_beginFrame e.rig i).address_eq (Rig.setAs_runLine e.rig _ i).address_eq
    fun _ => rfl

theorem lineWork_fire (h : Host Beam Board) :
    LineWork h.rig ((stops h).filterMap Rig.leftBy) (fire h).rig := by
  unfold stops fire
  cases h.schedule.event with
  | beginFrame => exact .frame (.done _)
  | runLine =>
      dsimp only
      split
      · exact .done h.rig
      · exact .line _ (.done _)
  | endLine =>
      have hspent := LineWork.done (h.rig.spend (-cyclesPerLine))
      exact .aside (by rfl) (by rfl) hspent

/-- An event that has no indirect channel `i` work leaves its count alone. -/
theorem count_fire {h : Host Beam Board} {i : ChannelId}
    (hstops : ∀ stop ∈ stops h, ¬ Rig.Recounts i stop) :
    ((fire h).rig.channel i).count = (h.rig.channel i).count := by
  unfold stops at hstops
  unfold fire
  cases hevent : h.schedule.event with
  | beginFrame =>
      rw [hevent] at hstops
      exact Rig.count_serve (q := .frame) (hstops _ List.mem_cons_self)
  | runLine =>
      rw [hevent] at hstops
      dsimp only at hstops ⊢
      split
      · rfl
      · rename_i hactive
        rw [if_neg hactive] at hstops
        exact Rig.count_serve (q := .line _) (hstops _ List.mem_cons_self)
  | endLine => rfl

theorem count_settleWithin (limit : Nat) {h : Host Beam Board} {i : ChannelId}
    (hstops : ∀ stop ∈ Host.settleNotes stops limit h, ¬ Rig.Recounts i stop) :
    ((Host.settleWithin limit h).rig.channel i).count = (h.rig.channel i).count :=
  Host.settleWithin_run
    (R := fun r stops r' => (∀ stop ∈ stops, ¬ Rig.Recounts i stop) →
      (r'.channel i).count = (r.channel i).count)
    stops (fun _ _ => rfl)
    (by
      intro _ _ _ _ _ hfirst hrest hstops
      obtain ⟨hxs, hys⟩ := List.forall_mem_append.mp hstops
      exact (hrest hys).trans (hfirst hxs))
    limit (fun _ _ => count_fire) hstops

end Beam

/-! ### Completed transfers -/

namespace Host

variable {κ β : Type} [Buses β] [Schedule κ β]

/-- Where a transfer goes on, the last set left behind does not have its channel. -/
theorem notMem_leftBy_of_passByte {note : Host κ β → List (Stop β)}
    (hnote : ∀ e : Host κ β, LineWork e.rig ((note e).filterMap Rig.leftBy) (Schedule.fire e).rig)
    {h : Host κ β} {i : ChannelId} (hin : h.rig.controller.activity.inTransfer = true)
    (hgo : (h.passByte i).1 = true) {m : ChannelMask}
    (hm : ((settleNotes note settleLimit (h.spend slowAccess)).filterMap Rig.leftBy).getLast? =
      some m) : i ∉ m := by
  have hwork := lineWork_settleWithin hnote settleLimit (h.spend slowAccess)
  rw [settleNotes_filterMap] at hwork
  have hleft := hwork.leaves hin
  rw [hm, Option.getD_some] at hleft
  exact hleft ▸ passByte_iff.mp hgo

end Host

/-- Where events have added something to the count and a transfer that came to its end went on, work
was forgotten. -/
theorem Beam.forgetsWork_of_added {m : Console} {i : ChannelId}
    (hdone : (m.runChannel i).1 = true) :
    ∀ byte ∈ m.transferNotes Beam.stops i, Host.added i byte ≠ 0 →
      Rig.ForgetsWork i byte.2 := by
  obtain ⟨-, -, -, hin⟩ := m.round_prepare i
  have hid := m.prepare_id i
  rw [Host.runChannel_eq] at hdone
  unfold Host.transferNotes
  generalize m.prepare i = prepared at hid hin hdone ⊢
  obtain ⟨t, progress, start⟩ := prepared
  dsimp only at hid hin hdone ⊢
  subst hid
  have hkept : ∀ h : Console, h.rig.controller.activity.inTransfer = true →
      (h.passByte t.id).2.rig.controller.activity.inTransfer = true := fun h hin =>
    Host.settleWithin_induction
      (P := fun e : Console => e.rig.controller.activity.inTransfer = true)
      (fun e he => (lineWork_fire e).inTransfer.trans he) settleLimit (h := h.spend slowAccess) hin
  intro byte hbyte hadded
  obtain ⟨hin', hnotes, hgo⟩ := Host.byteNotes_induction
    (P := fun h : Console => h.rig.controller.activity.inTransfer = true)
    (fun progress h hin => (Host.keeps_moveByte t progress h.rig).inTransfer.trans hin) hkept hin
    byte hbyte
  rw [hnotes]
  refine Rig.forgetsWork_of_notMem ?_
    fun _ hm => Host.notMem_leftBy_of_passByte lineWork_fire hin' (hgo hdone) hm
  refine Classical.byContradiction fun hworks => hadded ?_
  have hcount := count_settleWithin settleLimit (h := byte.1.spend slowAccess)
    fun stop hstop hrecounts => hworks ⟨stop, hstop, hrecounts⟩
  show ((Host.settleWithin settleLimit _).rig.channel t.id).count - _ = 0
  rw [hcount]
  exact UInt16.sub_self _

/-- A general transfer on a console that comes to its end has moved its address on by a step for
each byte of its length, and leaves the count that the events after its bytes have added up.  They
have added nothing unless an indirect line transfer of the channel was forgotten, so without that
the count is zero. -/
theorem countdown_of_completed {m : Console} {i : ChannelId} (hdone : (m.runChannel i).1 = true) :
    let c := m.rig.channel i
    let c' := (m.runChannel i).2.rig.channel i
    let bytes := m.transferNotes Beam.stops i
    c'.address = c.address + UInt16.ofNat c.length * (m.addressStep i).word ∧
      c'.count = Host.totalAdded i bytes ∧
      (∀ byte ∈ bytes, Host.added i byte ≠ 0 → Rig.ForgetsWork i byte.2) ∧
      ((∀ byte ∈ bytes, ¬ Rig.ForgetsWork i byte.2) → c'.count = 0) := by
  have hcount := Host.count_runChannel Beam.stops hdone
  have hforgotten := Beam.forgetsWork_of_added hdone
  refine ⟨Host.address_runChannel (fun e => Beam.address_fire e i) hdone, hcount, hforgotten, ?_⟩
  intro hnone
  rw [hcount]
  apply Host.totalAdded_eq_zero
  intro byte hbyte
  exact Decidable.not_not.mp fun hadded => hnone byte hbyte (hforgotten byte hbyte hadded)

/-- Channel 0, enabled for an indirect table, is about to send ten bytes.  Behind the second of them
the frame begins, and finds the end of the table at the address of the third. -/
def endingInside : Console :=
  [.load 0x7E1000 [0x10, 0x11, 0x00, 0x12], .write 0x4300 0x40, .write 0x4301 0x21,
    .write 0x4302 0x00, .write 0x4303 0x10, .write 0x4304 0x7E, .write 0x4305 0x0A,
    .write 0x4306 0x00, .write 0x420C 0x01].foldl (fun m op => Operation.run op m)
    (Console.powerOn .standard)

/-- The address has moved on by ten, and what the frame has added behind the second byte, and
thereby forgotten, is left of the count. -/
theorem endingInside_forgotten :
    ((endingInside.runChannel 0).2.rig.channel 0).address = 0x1000 + 10 ∧
      ((endingInside.runChannel 0).2.rig.channel 0).count = 0x1200 - 8 ∧
      ∃ byte ∈ endingInside.transferNotes Beam.stops 0,
        Host.added 0 byte = 0x1200 - 8 ∧ Rig.ForgetsWork 0 byte.2 := by
  obtain ⟨haddress, hcount, hforgotten, -⟩ :=
    countdown_of_completed (m := endingInside) (i := 0) (by decide +kernel)
  have hadded : (endingInside.transferNotes Beam.stops 0).map (Host.added 0) =
      [0, 0x1200 - 8, 0, 0, 0, 0, 0, 0, 0, 0] := by
    decide +kernel
  have hbyte : (0x1200 - 8 : UInt16) ∈
      (endingInside.transferNotes Beam.stops 0).map (Host.added 0) := by
    rw [hadded]
    exact List.mem_cons_of_mem _ List.mem_cons_self
  obtain ⟨byte, hbyte, hsecond⟩ := List.mem_map.mp hbyte
  refine ⟨haddress.trans (by decide +kernel), ?_, byte, hbyte, hsecond,
    hforgotten byte hbyte (hsecond ▸ by decide)⟩
  rw [hcount]
  decide +kernel

/-- The frame overwrites the count, and the transfer goes on to its end. -/
theorem endingInside_completes :
    (endingInside.runChannel 0).1 = true ∧
      ((endingInside.runChannel 0).2.rig.channel 0).count = 0x1200 - 8 := by
  decide +kernel

end DmaController
