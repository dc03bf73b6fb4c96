import DmaController.Proofs.Rig
import DmaController.Transfer.Run

/-! # Events between the bytes of a transfer

After each byte of a general transfer the host catches up on its events.  `byteDone` is the host at
that moment, before the events have their turn; with it the loop over the bytes has an equation of
one line (`moveBytes_succ`), and `runChannel_eq` takes a whole transfer apart into its preparation,
that loop and its conclusion.  Nothing happens to a host that stays `Quiet`, that is, has no event
before some time has passed (`settle_of_quiet`, `passByte_of_quiet`).

What the events do is told by notes.  `note h` says something of the event that fires at the host
`h`; `settleNotes note` collects the notes of all events of one catching up, and `byteNotes note`
has an entry for every byte moved: the host when the byte is done and the notes of the events that
follow it.  `transferNotes` are those of a whole transfer, and `bytesAhead` has what the transfer
carries ahead of each byte.  What each event has led to is put together by `settleWithin_run`, and
`byteNotes_induction` tells what is true behind every byte. -/

namespace DmaController

/-- Begins a transfer in the direction its channel says. -/
def Transfer.begin {β : Type} [Buses β] (t : Transfer) (decoded : Bool) (r : Rig β) :
    Progress × Rig β :=
  if t.channel.control.reverse then t.beginCollecting r else t.beginSending decoded r

namespace Host

variable {κ β : Type}

/-- Whether the transfer of channel `i` would take its bytes out of the stream decoder. -/
def isDecoded (h : Host κ β) (i : ChannelId) : Bool :=
  (h.rig.channel i).control.fixed && h.rig.controller.settings.decoderFitted &&
    h.rig.controller.decoder.ready != 0

/-- The step of the A-bus address in the transfer of channel `i`. -/
def addressStep (h : Host κ β) (i : ChannelId) : AddressStep :=
  if (h.rig.channel i).feedsWorkRamItself then .up
  else if h.isDecoded i then (h.rig.channel i).control.direction
  else (h.rig.channel i).control.step

theorem takeDecoderReady_fst (h : Host κ β) :
    h.takeDecoderReady.1 =
      (h.rig.controller.settings.decoderFitted && h.rig.controller.decoder.ready != 0) := by
  unfold takeDecoderReady
  by_cases hf : h.rig.controller.settings.decoderFitted = true
  · simp only [hf, if_true]
    rfl
  · simp [hf]

theorem takeDecoderReady_of_fitted {h : Host κ β}
    (hfitted : h.rig.controller.settings.decoderFitted = true) :
    h.takeDecoderReady.2 =
      h.modifyController fun k => { k with decoder := { k.decoder with ready := 0 } } := by
  unfold takeDecoderReady
  dsimp only
  rw [if_pos hfitted]
  rfl

theorem decoder_takeDecoderReady (h : Host κ β) :
    h.takeDecoderReady.2.rig.controller.decoder =
      if h.rig.controller.settings.decoderFitted then { h.rig.controller.decoder with ready := 0 }
      else h.rig.controller.decoder := by
  unfold takeDecoderReady
  dsimp only
  split <;> rfl

/-- Looking at the decoder changes the decoder alone. -/
theorem takeDecoderReady_snd (h : Host κ β) :
    ∃ d, h.takeDecoderReady.2 = h.modifyController fun k => { k with decoder := d } := by
  unfold takeDecoderReady
  by_cases hf : h.rig.controller.settings.decoderFitted = true
  · simp only [hf, if_true]
    exact ⟨_, rfl⟩
  · simp only [hf]
    exact ⟨h.rig.controller.decoder, rfl⟩

variable [Schedule κ β]

/-- No event becomes due before `time` more cycles have passed. -/
def Quiet (h : Host κ β) (time : Int) : Prop :=
  ∀ position, h.nextEvent = some position → h.rig.cycles + time < position

theorem isDue_of_quiet {h : Host κ β} (hq : h.Quiet 0) : h.isDue = false := by
  unfold isDue
  cases hn : h.nextEvent with
  | none => rfl
  | some position =>
      have := hq position hn
      simp only [decide_eq_false_iff_not]
      omega

theorem settle_of_quiet {h : Host κ β} (hq : h.Quiet 0) : h.settle = h := by
  show settleWithin (0xFFFFFFFF + 1) h = h
  rw [settleWithin, isDue_of_quiet hq]
  rfl

/-- What `note` says of the events carried out by `settleWithin limit`. -/
def settleNotes {γ : Type} (note : Host κ β → List γ) : Nat → Host κ β → List γ
  | 0, _ => []
  | limit + 1, h =>
      if h.isDue then note h ++ settleNotes note limit (Schedule.fire h) else []

/-- What every event keeps, catching up keeps. -/
theorem settleWithin_induction {P : Host κ β → Prop} (hfire : ∀ h, P h → P (Schedule.fire h))
    (limit : Nat) {h : Host κ β} (hP : P h) : P (settleWithin limit h) := by
  induction limit generalizing h with
  | zero => exact hP
  | succ limit ih =>
      unfold settleWithin
      split
      · exact ih (hfire h hP)
      · exact hP

/-- What is true of the notes of every event, is true of those of catching up. -/
theorem settleNotes_induction {γ : Type} {note : Host κ β → List γ} {P : Host κ β → Prop}
    {Q : γ → Prop} (hfire : ∀ h, P h → P (Schedule.fire h))
    (hnote : ∀ h, P h → ∀ x ∈ note h, Q x) (limit : Nat) {h : Host κ β} (hP : P h) :
    ∀ x ∈ settleNotes note limit h, Q x := by
  induction limit generalizing h with
  | zero => simp [settleNotes]
  | succ limit ih =>
      unfold settleNotes
      split
      · intro x hx
        rcases List.mem_append.mp hx with hx | hx
        · exact hnote h hP x hx
        · exact ih (hfire h hP) x hx
      · simp

/-- What every event has led to, catching up has led to, with the notes in a row. -/
theorem settleWithin_run {γ : Type} {R : Rig β → List γ → Rig β → Prop}
    (note : Host κ β → List γ) (hdone : ∀ r, R r [] r)
    (htrans : ∀ {r r' r'' xs ys}, R r xs r' → R r' ys r'' → R r (xs ++ ys) r'') (limit : Nat)
    {h : Host κ β} (hevents : ∀ e ∈ settleNotes (fun e => [e]) limit h,
      R e.rig (note e) (Schedule.fire e).rig) :
    R h.rig (settleNotes note limit h) (settleWithin limit h).rig := by
  induction limit generalizing h with
  | zero => exact hdone h.rig
  | succ limit ih =>
      unfold settleNotes at hevents ⊢
      unfold settleWithin
      split
      · rename_i hdue
        rw [if_pos hdue, List.cons_append, List.nil_append] at hevents
        obtain ⟨hfirst, hrest⟩ := List.forall_mem_cons.mp hevents
        exact htrans hfirst (ih hrest)
      · exact hdone h.rig

/-- All notes are notes of the events. -/
theorem settleNotes_events {γ : Type} (note : Host κ β → List γ) (limit : Nat) (h : Host κ β) :
    settleNotes note limit h = (settleNotes (fun e => [e]) limit h).flatMap note := by
  induction limit generalizing h with
  | zero => rfl
  | succ limit ih =>
      unfold settleNotes
      split
      · rw [ih, List.flatMap_append, List.flatMap_singleton]
      · rfl

theorem settleNotes_filterMap {γ δ : Type} (note : Host κ β → List γ) (f : γ → Option δ)
    (limit : Nat) (h : Host κ β) :
    settleNotes (fun e => (note e).filterMap f) limit h =
      (settleNotes note limit h).filterMap f := by
  rw [settleNotes_events note, settleNotes_events fun e => (note e).filterMap f,
    List.filterMap_flatMap]

/-- A transfer goes on if its channel is not among those that ran while its byte passed by. -/
theorem passByte_iff {h : Host κ β} {i : ChannelId} :
    (h.passByte i).1 = true ↔
      i ∉ (h.spend slowAccess).settle.rig.controller.activity.ranInside := by
  have hgo : (h.passByte i).1 =
      !((h.spend slowAccess).settle.rig.controller.activity.ranInside).contains i := rfl
  rw [hgo, Bool.not_eq_true', ChannelMask.mem_def, Bool.not_eq_true]

/-- With no event due, nothing happens while a byte passes by but that its time does. -/
theorem settle_spend_of_quiet {h : Host κ β} (hq : h.Quiet slowAccess) :
    (h.spend slowAccess).settle = h.spend slowAccess := by
  refine settle_of_quiet fun position hp => ?_
  have := hq position hp
  show h.rig.cycles + slowAccess + 0 < position
  omega

theorem passByte_snd_of_quiet {h : Host κ β} {i : ChannelId} (hq : h.Quiet slowAccess) :
    (h.passByte i).2 = (h.spend slowAccess).modifyRig (·.modifyActivity fun _ =>
      { h.rig.controller.activity with ranInside := ∅ }) := by
  unfold passByte
  rw [settle_spend_of_quiet hq]
  rfl

/-- With no event due and no trace of one, a byte passes by. -/
theorem passByte_of_quiet {h : Host κ β} {i : ChannelId} (hq : h.Quiet slowAccess)
    (hran : i ∉ h.rig.controller.activity.ranInside) :
    h.passByte i = (true, (h.spend slowAccess).modifyRig (·.modifyActivity fun _ =>
      { h.rig.controller.activity with ranInside := ∅ })) := by
  refine Prod.ext (passByte_iff.mpr ?_) (passByte_snd_of_quiet hq)
  rw [settle_spend_of_quiet hq]
  exact hran

variable [Buses β]

omit [Schedule κ β] in
theorem keeps_openStretch (t : Transfer) (o : UInt16) (left : Nat) (r : Rig β) :
    r.Keeps (t.openStretch o left r).2 := by
  have h : r.Keeps (r.blockPointer (.of t.channel.bank o)).2 := .of_eq rfl
  exact h.setWorkRamTaken (isWorkRam t.channel.bank o)

omit [Schedule κ β] in
theorem keeps_sendByte (t : Transfer) (place : UnitCursor) (position : UInt16) (s : Stretch)
    (r : Rig β) : r.Keeps (t.sendByte place position s r) := by
  have hfetch : r.Keeps (t.fetch s.source position r).2 := by
    unfold Transfer.fetch
    cases s.source <;> exact .of_eq rfl
  have hdeliver : ∀ (a : UInt16) (o v : UInt8) (r : Rig β),
      r.Keeps (s.route.deliver a o v s.taken r) := by
    intro a o v r
    unfold Route.deliver
    cases s.route with
    | videoPair remapped =>
        dsimp only
        split <;> exact .of_eq rfl
    | workRam =>
        dsimp only
        split <;> exact .of_eq rfl
    | _ => exact .of_eq rfl
  exact hfetch.trans (hdeliver _ _ _ _)

omit [Schedule κ β] in
/-- Moving a byte is work on the buses. -/
theorem keeps_moveByte (t : Transfer) (progress : Progress) (r : Rig β) :
    r.Keeps (t.moveByte progress r).2 := by
  cases progress with
  | idle => exact .refl r
  | collecting place =>
      simp only [Transfer.moveByte, Transfer.collectByte]
      split
      · exact ((Rig.Keeps.refl r).setWorkRamTaken _).trans (.of_eq rfl)
      · exact .of_eq rfl
  | sending place position s =>
      have hcurrent : r.Keeps (t.currentStretch s r).2 := by
        unfold Transfer.currentStretch
        split
        · exact keeps_openStretch t _ blockSize r
        · exact .refl r
      exact hcurrent.trans (keeps_sendByte t place position _ _)

/-- The host when a byte has been moved and counted, before its time has passed. -/
def byteDone (t : Transfer) (progress : Progress) (h : Host κ β) : Host κ β :=
  { h with rig := (t.moveByte progress h.rig).2.modifyChannel t.id (·.countDown t.step) }

omit [Schedule κ β] in
theorem channel_byteDone (t : Transfer) (progress : Progress) (h : Host κ β) (j : ChannelId) :
    (h.byteDone t progress).rig.channel j =
      if t.id = j then (h.rig.channel t.id).countDown t.step else h.rig.channel j := by
  have hmoved := keeps_moveByte t progress h.rig
  rw [byteDone, Rig.channel_modifyChannel, hmoved.channel, hmoved.channel]

theorem moveBytes_succ (t : Transfer) (n : Nat) (progress : Progress) (h : Host κ β) :
    moveBytes t (n + 1) progress h =
      if ((h.byteDone t progress).passByte t.id).1 then
        moveBytes t n (t.moveByte progress h.rig).1 ((h.byteDone t progress).passByte t.id).2
      else (false, ((h.byteDone t progress).passByte t.id).2) := rfl

/-- For each byte moved: the host when it is done, and the notes of the events after it. -/
def byteNotes {γ : Type} (note : Host κ β → List γ) (t : Transfer) :
    Nat → Progress → Host κ β → List (Host κ β × List γ)
  | 0, _, _ => []
  | n + 1, progress, h =>
      let done := h.byteDone t progress
      let passed := done.passByte t.id
      (done, settleNotes note settleLimit (done.spend slowAccess)) ::
        if passed.1 then byteNotes note t n (t.moveByte progress h.rig).1 passed.2 else []

/-- What a transfer carries ahead of each of its bytes, with the host as it is then. -/
def bytesAhead (t : Transfer) : Nat → Progress → Host κ β → List (Progress × Host κ β)
  | 0, _, _ => []
  | n + 1, progress, h =>
      let passed := (h.byteDone t progress).passByte t.id
      (progress, h) ::
        if passed.1 then bytesAhead t n (t.moveByte progress h.rig).1 passed.2 else []

/-- Behind what a transfer carries ahead of a byte comes the byte. -/
theorem bytesAhead_done {γ : Type} (note : Host κ β → List γ) (t : Transfer) (n : Nat)
    (progress : Progress) (h : Host κ β) :
    (bytesAhead t n progress h).map (fun ahead => ahead.2.byteDone t ahead.1) =
      (byteNotes note t n progress h).map Prod.fst := by
  induction n generalizing progress h with
  | zero => rfl
  | succ n ih =>
      rw [bytesAhead, byteNotes, List.map_cons, List.map_cons]
      congr 1
      split
      · exact ih _ _
      · rfl

/-- For each byte, all notes are notes of the events after it. -/
theorem byteNotes_events {γ : Type} (note : Host κ β → List γ) (t : Transfer) (n : Nat)
    (progress : Progress) (h : Host κ β) :
    byteNotes note t n progress h =
      (byteNotes (fun e => [e]) t n progress h).map fun byte =>
        (byte.1, byte.2.flatMap note) := by
  induction n generalizing progress h with
  | zero => rfl
  | succ n ih =>
      rw [byteNotes, byteNotes, List.map_cons, settleNotes_events note]
      split
      · rw [ih]
      · rfl

theorem byteNotes_filterMap {γ δ : Type} (note : Host κ β → List γ) (f : γ → Option δ)
    (t : Transfer) (n : Nat) (progress : Progress) (h : Host κ β) :
    byteNotes (fun e => (note e).filterMap f) t n progress h =
      (byteNotes note t n progress h).map fun byte => (byte.1, byte.2.filterMap f) := by
  rw [byteNotes_events note, byteNotes_events fun e => (note e).filterMap f, List.map_map]
  simp only [Function.comp_def, List.filterMap_flatMap]

/-- A transfer that comes to its end goes on after its first byte. -/
theorem passByte_of_moveBytes {t : Transfer} {n : Nat} {progress : Progress} {h : Host κ β}
    (hdone : (moveBytes t (n + 1) progress h).1 = true) :
    ((h.byteDone t progress).passByte t.id).1 = true := by
  rw [moveBytes_succ] at hdone
  split at hdone
  · assumption
  · cases hdone

/-- What moving a byte and passing it by keep is true behind every byte of a transfer; and all the
bytes of one that comes to its end pass by. -/
theorem byteNotes_induction {γ : Type} {P : Host κ β → Prop} {note : Host κ β → List γ}
    {t : Transfer} (hmove : ∀ progress h, P h → P (byteDone t progress h))
    (hpass : ∀ h, P h → P (passByte h t.id).2) {n : Nat} {progress : Progress} {h : Host κ β}
    (hP : P h) :
    ∀ byte ∈ byteNotes note t n progress h,
      P byte.1 ∧ byte.2 = settleNotes note settleLimit (byte.1.spend slowAccess) ∧
        ((moveBytes t n progress h).1 = true → (byte.1.passByte t.id).1 = true) := by
  induction n generalizing progress h with
  | zero => exact List.forall_mem_nil _
  | succ n ih =>
      have hdone := hmove progress h hP
      rw [byteNotes]
      refine List.forall_mem_cons.mpr ⟨⟨hdone, rfl, passByte_of_moveBytes⟩, ?_⟩
      rw [moveBytes_succ]
      split
      · exact ih (hpass _ hdone)
      · exact List.forall_mem_nil _

/-- What moving a byte and passing it by keep, is true behind the last byte of a transfer. -/
theorem moveBytes_induction {P : Host κ β → Prop} {t : Transfer}
    (hmove : ∀ progress h, P h → P (byteDone t progress h))
    (hpass : ∀ h, P h → P (passByte h t.id).2) (n : Nat) {progress : Progress} {h : Host κ β}
    (hP : P h) : P (moveBytes t n progress h).2 := by
  induction n generalizing progress h with
  | zero => exact hP
  | succ n ih =>
      have hpassed := hpass _ (hmove progress h hP)
      rw [moveBytes_succ]
      split
      · exact ih hpassed
      · exact hpassed

omit [Schedule κ β] in
theorem keeps_begin (t : Transfer) (decoded : Bool) (r : Rig β) :
    r.Keeps (t.begin decoded r).2 := by
  unfold Transfer.begin
  split
  · unfold Transfer.beginCollecting
    dsimp only
    split
    · exact .refl r
    · exact (Rig.Keeps.refl r).setWorkRamTaken _
  · unfold Transfer.beginSending
    split
    · exact (Rig.Keeps.refl r).setWorkRamTaken false
    · exact keeps_openStretch t _ (t.firstStretch t.channel.address) r

omit [Schedule κ β] [Buses β] in
theorem isDecoded_eq (h : Host κ β) (i : ChannelId) :
    ((h.rig.channel i).control.fixed && (h.noteStart i).takeDecoderReady.1) = h.isDecoded i := by
  rw [takeDecoderReady_fst, isDecoded, Bool.and_assoc]
  rfl

/-- The transfer of channel `i`, with what it carries and the host at its first byte. -/
def prepare (h : Host κ β) (i : ChannelId) : Transfer × Progress × Host κ β :=
  let c := h.rig.channel i
  let start := h.noteStart i
  if c.feedsWorkRamItself then (⟨i, c, .up⟩, .idle, start.spend slowAccess)
  else
    let decoded := c.control.fixed && start.takeDecoderReady.1
    let t : Transfer := ⟨i, c, if decoded then c.control.direction else c.control.step⟩
    let ready := start.takeDecoderReady.2.spend slowAccess
    let begun := t.begin decoded ready.rig
    (t, begun.1, { ready with rig := begun.2 })

omit [Schedule κ β] in
theorem prepare_id (h : Host κ β) (i : ChannelId) : (h.prepare i).1.id = i := by
  unfold prepare
  dsimp only
  split <;> rfl

omit [Schedule κ β] in
theorem prepare_channel (h : Host κ β) (i : ChannelId) :
    (h.prepare i).1.channel = h.rig.channel i := by
  unfold prepare
  dsimp only
  split <;> rfl

omit [Schedule κ β] in
theorem prepare_step (h : Host κ β) (i : ChannelId) :
    (h.prepare i).1.step = h.addressStep i := by
  unfold prepare addressStep
  dsimp only
  rw [isDecoded_eq]
  split <;> rfl

omit [Schedule κ β] in
/-- What is to come makes no difference to how a transfer is prepared. -/
theorem prepare_schedule {κ' : Type} (h : Host κ β) (k : κ') (i : ChannelId) :
    (⟨h.rig, k⟩ : Host κ' β).prepare i =
      ((h.prepare i).1, (h.prepare i).2.1, ⟨(h.prepare i).2.2.rig, k⟩) := by
  unfold prepare noteStart takeDecoderReady modifyRig modifyController
  dsimp only
  split
  · rfl
  · split <;> rfl

omit [Schedule κ β] in
/-- Preparing a transfer takes the time of one access, may use up the decoder, and is work on the
buses otherwise. -/
theorem keeps_prepare (h : Host κ β) (i : ChannelId) :
    ∃ d, (((h.noteStart i).modifyController fun k => { k with decoder := d }).spend
      slowAccess).rig.Keeps (h.prepare i).2.2.rig := by
  unfold prepare
  dsimp only
  split
  · exact ⟨h.rig.controller.decoder, .of_eq rfl⟩
  · obtain ⟨d, hd⟩ := (h.noteStart i).takeDecoderReady_snd
    rw [hd]
    exact ⟨d, keeps_begin _ _ _⟩

omit [Schedule κ β] in
theorem settings_prepare (h : Host κ β) (i : ChannelId) :
    (h.prepare i).2.2.rig.controller.settings = h.rig.controller.settings := by
  obtain ⟨d, hkeeps⟩ := h.keeps_prepare i
  exact hkeeps.settings

omit [Schedule κ β] in
/-- A transfer looks at the decoder when it is prepared, unless it moves nothing. -/
theorem decoder_prepare (h : Host κ β) (i : ChannelId) :
    (h.prepare i).2.2.rig.controller.decoder =
      if (h.rig.channel i).feedsWorkRamItself then h.rig.controller.decoder
      else h.takeDecoderReady.2.rig.controller.decoder := by
  unfold prepare
  dsimp only
  split
  · rfl
  · rw [(keeps_begin _ _ _).decoder]
    exact (h.noteStart i).decoder_takeDecoderReady.trans h.decoder_takeDecoderReady.symm

omit [Schedule κ β] in
/-- Preparing a transfer leaves the channels alone, and which of them are to run, and says that a
transfer is running. -/
theorem round_prepare (h : Host κ β) (i : ChannelId) :
    (∀ j, (h.prepare i).2.2.rig.channel j = h.rig.channel j) ∧
      (h.prepare i).2.2.rig.controller.active = h.rig.controller.active ∧
      (h.prepare i).2.2.rig.controller.enabled = h.rig.controller.enabled ∧
      (h.prepare i).2.2.rig.controller.activity.inTransfer = true := by
  obtain ⟨d, hkeeps⟩ := h.keeps_prepare i
  exact ⟨hkeeps.channel, hkeeps.active, hkeeps.enabled, hkeeps.inTransfer⟩

/-- What follows the last byte of a transfer that moved something or not, and came to its end or
not. -/
def conclude (idle done : Bool) (h : Host κ β) : Host κ β :=
  (if done && !idle then h.delayInterrupt else h).noteEnd

/-- The end of a transfer changes the rig as if it had not come to its end. -/
theorem rig_conclude (idle done : Bool) (h : Host κ β) :
    (h.conclude idle done).rig = h.noteEnd.rig := by
  have hdelayed : h.delayInterrupt.rig = h.rig := by
    unfold delayInterrupt
    split <;> rfl
  unfold conclude
  split
  · unfold noteEnd modifyRig
    rw [hdelayed]
  · rfl

theorem buses_conclude (idle done : Bool) (h : Host κ β) :
    (h.conclude idle done).rig.buses = Buses.setWorkRamTaken false h.rig.buses := by
  rw [rig_conclude]
  rfl

/-- The end of a transfer changes the record of activity and nothing else of the controller. -/
theorem controller_conclude (idle done : Bool) (h : Host κ β) :
    (h.conclude idle done).rig.controller =
      { h.rig.controller with
        activity := { h.rig.controller.activity with
          inTransfer := false, busy := false, workRamTaken := false, current := none } } := by
  rw [rig_conclude]
  rfl

theorem cycles_conclude (idle done : Bool) (h : Host κ β) :
    (h.conclude idle done).rig.cycles = h.rig.cycles := by
  rw [rig_conclude]
  rfl

theorem channel_conclude (idle done : Bool) (h : Host κ β) (j : ChannelId) :
    (h.conclude idle done).rig.channel j = h.rig.channel j := by
  rw [Rig.channel, controller_conclude]
  rfl

theorem runChannel_eq (h : Host κ β) (i : ChannelId) :
    h.runChannel i =
      let (t, progress, start) := h.prepare i
      let (done, stop) := moveBytes t (h.rig.channel i).length progress start
      (done, stop.conclude (h.rig.channel i).feedsWorkRamItself done) := by
  have hc : (h.noteStart i).rig.channel i = h.rig.channel i := rfl
  cases hidle : (h.rig.channel i).feedsWorkRamItself with
  | true =>
      simp only [runChannel, prepare, hc, hidle, if_true, runIdle, conclude, Bool.not_true,
        Bool.and_false, Bool.false_eq_true, if_false]
  | false =>
      simp only [runChannel, prepare, hc, hidle, Bool.false_eq_true, if_false, runMoving, conclude,
        Transfer.begin, Bool.not_false, Bool.and_true]

/-! What the events keep of settings and decoder, a transfer keeps once it has looked at the
decoder. -/

section

variable {P : Settings → StreamDecoder → Prop}
  (hfire : ∀ e : Host κ β, P e.rig.controller.settings e.rig.controller.decoder →
    P (Schedule.fire e).rig.controller.settings (Schedule.fire e).rig.controller.decoder)

include hfire

theorem decoder_moveBytes (t : Transfer) (n : Nat) (progress : Progress) {h : Host κ β}
    (hP : P h.rig.controller.settings h.rig.controller.decoder) :
    P (moveBytes t n progress h).2.rig.controller.settings
      (moveBytes t n progress h).2.rig.controller.decoder := by
  refine moveBytes_induction
    (P := fun h : Host κ β => P h.rig.controller.settings h.rig.controller.decoder)
    (fun progress h hP => ?_) (fun h hP => ?_) n hP
  · have hmoved := keeps_moveByte t progress h.rig
    show P (t.moveByte progress h.rig).2.controller.settings
      (t.moveByte progress h.rig).2.controller.decoder
    rw [hmoved.settings, hmoved.decoder]
    exact hP
  · exact settleWithin_induction
      (P := fun h : Host κ β => P h.rig.controller.settings h.rig.controller.decoder)
      hfire settleLimit (h := h.spend slowAccess) hP

theorem decoder_runChannel (h : Host κ β) (i : ChannelId)
    (hP : P h.rig.controller.settings
      (if (h.rig.channel i).feedsWorkRamItself then h.rig.controller.decoder
        else h.takeDecoderReady.2.rig.controller.decoder)) :
    P (h.runChannel i).2.rig.controller.settings (h.runChannel i).2.rig.controller.decoder := by
  have hstart : P (h.prepare i).2.2.rig.controller.settings
      (h.prepare i).2.2.rig.controller.decoder := by
    rwa [settings_prepare, decoder_prepare]
  have hmoved := decoder_moveBytes hfire (h.prepare i).1 (h.rig.channel i).length (h.prepare i).2.1
    hstart
  rw [runChannel_eq]
  show P (conclude _ _ _).rig.controller.settings (conclude _ _ _).rig.controller.decoder
  rw [controller_conclude]
  exact hmoved

end

/-- The word left for a transfer is taken with every byte, so nothing of it is there at the end. -/
theorem ranInside_moveBytes (t : Transfer) (n : Nat) (progress : Progress) (h : Host κ β) :
    (moveBytes t (n + 1) progress h).2.rig.controller.activity.ranInside = ∅ := by
  induction n generalizing progress h with
  | zero =>
      rw [moveBytes_succ]
      split <;> rfl
  | succ n ih =>
      rw [moveBytes_succ]
      split
      · exact ih _ _
      · rfl

/-- Whatever the events did, a general transfer leaves the rig at rest. -/
theorem resting_runChannel (h : Host κ β) (i : ChannelId) : (h.runChannel i).2.rig.Resting := by
  have hlength := (h.rig.channel i).length_pos
  rw [runChannel_eq]
  generalize h.prepare i = p
  obtain ⟨t, progress, start⟩ := p
  dsimp only
  cases hn : (h.rig.channel i).length with
  | zero => omega
  | succ n =>
      have hran := ranInside_moveBytes t n progress start
      generalize moveBytes t (n + 1) progress start = moved at hran ⊢
      constructor
      · rw [controller_conclude]
      · rw [controller_conclude]
        exact hran

/-- The notes of the transfer of channel `i`. -/
def transferNotes {γ : Type} (note : Host κ β → List γ) (h : Host κ β) (i : ChannelId) :
    List (Host κ β × List γ) :=
  let (t, progress, start) := h.prepare i
  byteNotes note t (h.rig.channel i).length progress start

theorem transferNotes_events {γ : Type} (note : Host κ β → List γ) (h : Host κ β)
    (i : ChannelId) :
    h.transferNotes note i =
      (h.transferNotes (fun e => [e]) i).map fun byte => (byte.1, byte.2.flatMap note) :=
  byteNotes_events note _ _ _ _

/-- The hosts at which events fire during the transfer of channel `i`. -/
def events (h : Host κ β) (i : ChannelId) : List (Host κ β) :=
  (h.transferNotes (fun e => [e]) i).flatMap Prod.snd

end Host

end DmaController
