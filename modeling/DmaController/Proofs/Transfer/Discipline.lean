import DmaController.Proofs.Transfer.Nested
import DmaController.Proofs.Transfer.Poised
import DmaController.Proofs.Transfer.Undisturbed

/-! # The record of activity as a stack

General transfers, lines and frames all note in the record of activity what they do, and lines and
frames may come in the middle of a general transfer.  Each of them puts back what it found.  So a
general transfer that is `Amid` its work stays so whatever its events do (`EventWork.amid`): it
finds its own channel and its own word on work RAM, and the buses agree with that word.  In the end
nothing runs (`Rig.Idle`), whether all bytes were moved or not.

`Host.moments` are the bytes of a transfer at the moment they are moved (`Host.moments_moved`),
each with the word that the transfer itself, apart from all events, has last said of work RAM.
`Task` is what can be asked of a controller from outside, and `tasks_disciplined` is what holds of
any row of tasks. -/

namespace DmaController

/-! ### What was said of work RAM -/

/-- The word on work RAM that a request says. -/
def BusCall.said? : BusCall → Option Bool
  | setWorkRamTaken taken => some taken
  | _ => none

namespace Logged

variable {β : Type}

/-- The last word on work RAM in the requests from `t` to `t'`, or `before` if there is none. -/
def word (before : Bool) (t t' : Logged β) : Bool :=
  ((t'.calls.drop t.calls.length).filterMap BusCall.said?).getLastD before

theorem word_of_calls_eq {t t' : Logged β} (h : t'.calls = t.calls) (before : Bool) :
    word before t t' = before := by
  rw [word, h, List.drop_length]
  rfl

theorem word_of_said {t t' : Logged β} {taken : Bool}
    (h : t'.calls = t.calls ++ [.setWorkRamTaken taken]) (before : Bool) :
    word before t t' = taken := by
  rw [word, h, List.drop_left]
  rfl

/-- A log keeps what was last said. -/
theorem heeds [Buses β] : Heeds (taken : Logged β → Bool) where
  said _ _ := rfl
  kept h := by cases h <;> rfl

end Logged

/-! ### The record of activity -/

namespace Rig

variable {β : Type}

/-- Nothing runs, and the buses have been told so. -/
structure Idle (r : Rig (Logged β)) : Prop where
  activity : r.controller.activity = .idle
  taken : r.buses.taken = false

/-- A general transfer of channel `i` runs, with this word on work RAM, and no line is in
progress. -/
structure Amid (i : ChannelId) (word : Bool) (r : Rig (Logged β)) : Prop where
  inTransfer : r.controller.activity.inTransfer = true
  busy : r.controller.activity.busy = true
  inLine : r.controller.activity.inLine = false
  current : r.controller.activity.current = some (UInt8.ofNat i.val)
  workRamTaken : r.controller.activity.workRamTaken = word
  taken : r.buses.taken = word

namespace Amid

variable {i : ChannelId} {word : Bool} {r r' : Rig (Logged β)}

theorem congr (h : r.Amid i word) (activity : r'.controller.activity = r.controller.activity)
    (taken : r'.buses.taken = r.buses.taken) : r'.Amid i word := by
  constructor
  · rw [activity, h.inTransfer]
  · rw [activity, h.busy]
  · rw [activity, h.inLine]
  · rw [activity, h.current]
  · rw [activity, h.workRamTaken]
  · rw [taken, h.taken]

/-- It is true of a transfer whatever is left for it. -/
theorem ranInside (h : r.Amid i word) (m : ChannelMask) :
    (r.modifyActivity fun a => { a with ranInside := m }).Amid i word :=
  ⟨h.inTransfer, h.busy, h.inLine, h.current, h.workRamTaken, h.taken⟩

variable [Buses β]

omit [Buses β] in
theorem said (h : r.Amid i word) : r.Said Logged.taken word := ⟨h.taken, h.workRamTaken⟩

theorem line (h : r.Amid i word) (m : ChannelMask) : (r.runLine m).2.Amid i word := by
  have hactivity := r.activity_runLine m
  have hsaid := h.said.line Logged.heeds m
  refine ⟨?_, ?_, ?_, ?_, hsaid.controller, hsaid.buses⟩
  · rw [hactivity, h.inTransfer]
  · rw [hactivity, h.inTransfer]
  · rw [hactivity]
  · rw [hactivity, h.current]

theorem frame (h : r.Amid i word) : r.beginFrame.Amid i word := by
  have hactivity := r.activity_beginFrame
  have hsaid := h.said.frame Logged.heeds
  refine ⟨?_, ?_, ?_, ?_, hsaid.controller, hsaid.buses⟩
  · rw [hactivity, h.inTransfer]
  · rw [hactivity, h.inTransfer]
  · rw [hactivity]
  · rw [hactivity, h.current]

/-- The transfer itself may say a word on work RAM, which is then its own. -/
theorem say (h : r.Amid i word) {b : Logged β} (calls : b.calls = r.buses.calls) (taken : Bool) :
    (Rig.setWorkRamTaken { r with buses := b } taken).Amid i
      (Logged.word word r.buses (Buses.setWorkRamTaken taken b)) := by
  have hword : Logged.word word r.buses (Buses.setWorkRamTaken taken b) = taken :=
    Logged.word_of_said (by rw [← calls]; rfl) word
  rw [hword]
  exact ⟨h.inTransfer, h.busy, h.inLine, h.current, rfl, rfl⟩

omit [Buses β] in
/-- If it says nothing, its word stays. -/
theorem silent (h : r.Amid i word) : r.Amid i (Logged.word word r.buses r.buses) := by
  rwa [Logged.word_of_calls_eq rfl]

theorem openStretch (h : r.Amid i word) (t : Transfer) (o : UInt16) (left : Nat) :
    (t.openStretch o left r).2.Amid i
      (Logged.word word r.buses (t.openStretch o left r).2.buses) :=
  h.say (b := (Buses.blockPointer (.of t.channel.bank o) r.buses).2) rfl
    (isWorkRam t.channel.bank o)

theorem begin (h : r.Amid i word) (t : Transfer) (decoded : Bool) :
    (t.begin decoded r).2.Amid i (Logged.word word r.buses (t.begin decoded r).2.buses) := by
  unfold Transfer.begin
  split
  · unfold Transfer.beginCollecting
    dsimp only
    split
    · exact h.silent
    · exact h.say rfl _
  · unfold Transfer.beginSending
    split
    · exact h.say rfl false
    · exact h.openStretch t _ (t.firstStretch t.channel.address)

theorem poise (h : r.Amid i word) (t : Transfer) (progress : Progress) :
    (t.poise progress r).2.Amid i (Logged.word word r.buses (t.poise progress r).2.buses) := by
  cases progress with
  | idle => exact h.silent
  | collecting place =>
      unfold Transfer.poise
      dsimp only
      split
      · exact h.say rfl _
      · exact h.silent
  | sending place position s =>
      show (t.currentStretch s r).2.Amid i (Logged.word word r.buses (t.currentStretch s r).2.buses)
      unfold Transfer.currentStretch
      split
      · exact h.openStretch t _ blockSize
      · exact h.silent

theorem carry (h : r.Amid i word) (t : Transfer) (progress : Progress) :
    (t.carry progress r).Amid i word := by
  have hcontroller := t.controller_carry progress r
  have hsaid := t.said_carry Logged.heeds progress h.said
  exact h.congr (by rw [hcontroller]) (hsaid.buses.trans h.taken.symm)

end Amid

end Rig

/-! ### Events -/

namespace Host

variable {κ β : Type} [Buses β] [Schedule κ (Logged β)]

/-- From one host to another an event has done its work: it has had frames prepared and lines run,
written registers of the controller, and done what else leaves the controller alone and says
nothing of work RAM. -/
inductive EventWork (h : Host κ (Logged β)) : Host κ (Logged β) → Prop
  | start : EventWork h h
  | aside {h' h'' : Host κ (Logged β)} (work : EventWork h h')
      (controller : h''.rig.controller = h'.rig.controller)
      (taken : h''.rig.buses.taken = h'.rig.buses.taken) : EventWork h h''
  | write {h' : Host κ (Logged β)} (work : EventWork h h') (a : UInt16) (v : UInt8) :
      EventWork h (h'.writeRegister a v)
  | frame {h' : Host κ (Logged β)} (work : EventWork h h') :
      EventWork h { h' with rig := h'.rig.beginFrame }
  | line {h' : Host κ (Logged β)} (work : EventWork h h') (m : ChannelMask) :
      EventWork h { h' with rig := (h'.rig.runLine m).2 }

/-- While a transfer runs, the processor can start no other, nor enable channels. -/
theorem writeRegister_of_busy {h : Host κ (Logged β)}
    (hbusy : h.rig.controller.activity.busy = true) (v : UInt8) :
    h.writeRegister 0x420B v = h ∧ h.writeRegister 0x420C v = h := by
  constructor
  · show h.startChannels ⟨v⟩ = h
    rw [startChannels, hbusy, Bool.true_or, if_pos rfl]
  · show h.modifyController (·.enable ⟨v⟩) = h
    unfold modifyController modifyRig Controller.enable
    simp only [hbusy, if_true]

/-- Writing a register changes neither the record of activity nor the buses, unless it starts
transfers. -/
theorem writeRegister_aside (h : Host κ (Logged β)) {a : UInt16} (ha : a ≠ 0x420B) (v : UInt8) :
    (h.writeRegister a v).rig.controller.activity = h.rig.controller.activity ∧
      (h.writeRegister a v).rig.buses = h.rig.buses := by
  unfold writeRegister
  rw [if_neg ha]
  split
  · refine ⟨?_, rfl⟩
    show (h.rig.controller.enable ⟨v⟩).activity = _
    unfold Controller.enable
    split <;> rfl
  split
  · exact ⟨rfl, rfl⟩
  split
  · refine ⟨?_, rfl⟩
    show (h.rig.controller.writeReady v).activity = _
    unfold Controller.writeReady
    split <;> rfl
  · exact ⟨rfl, rfl⟩

/-- Whatever an event does, it leaves a transfer amid its work. -/
theorem EventWork.amid {h h' : Host κ (Logged β)} {i : ChannelId} {word : Bool}
    (hwork : h.EventWork h') (hamid : h.rig.Amid i word) : h'.rig.Amid i word := by
  induction hwork with
  | start => exact hamid
  | aside _ hcontroller htaken ih => exact ih.congr (by rw [hcontroller]) htaken
  | @write h' _ a v ih =>
      by_cases ha : a = 0x420B
      · rw [ha, (writeRegister_of_busy ih.busy v).1]
        exact ih
      · obtain ⟨hactivity, hbuses⟩ := writeRegister_aside h' ha v
        exact ih.congr hactivity (by rw [hbuses])
  | frame _ ih => exact ih.frame
  | line _ m ih => exact ih.line m

/-! ### The bytes of a transfer -/

end Host

/-- A byte of a general transfer at the moment it is moved. -/
structure Moment (β : Type) where
  /-- The rig when the accesses of the byte begin. -/
  rig : Rig (Logged β)
  /-- The rig when they are over. -/
  moved : Rig (Logged β)
  /-- What the transfer itself has last said of work RAM. -/
  word : Bool

namespace Host

variable {κ β : Type} [Buses β] [Schedule κ (Logged β)]

/-- The moments of the bytes of a transfer that has said `word` of work RAM so far. -/
def byteMoments (t : Transfer) :
    Nat → Progress → Bool → Host κ (Logged β) → List (Moment β)
  | 0, _, _, _ => []
  | n + 1, progress, word, h =>
      let poised := t.poise progress h.rig
      let word := Logged.word word h.rig.buses poised.2.buses
      let passed := (h.byteDone t progress).passByte t.id
      ⟨poised.2, t.carry poised.1 poised.2, word⟩ ::
        if passed.1 then byteMoments t n (t.moveByte progress h.rig).1 word passed.2 else []

/-- The moments of the transfer of channel `i`. -/
def moments (h : Host κ (Logged β)) (i : ChannelId) : List (Moment β) :=
  let (t, progress, start) := h.prepare i
  byteMoments t (h.rig.channel i).length progress
    (Logged.word false h.rig.buses start.rig.buses) start

/-- Every byte has its moment, and is done when it has been counted as well. -/
theorem byteMoments_moved {γ : Type} (note : Host κ (Logged β) → List γ) (t : Transfer) (n : Nat)
    (progress : Progress) (word : Bool) (h : Host κ (Logged β)) :
    (byteMoments t n progress word h).map (fun b => b.moved.modifyChannel t.id (·.countDown t.step))
      = (byteNotes note t n progress h).map (fun b => b.1.rig) := by
  induction n generalizing progress word h with
  | zero => rfl
  | succ n ih =>
      have hmoved : (t.carry (t.poise progress h.rig).1 (t.poise progress h.rig).2).modifyChannel
          t.id (·.countDown t.step) = (h.byteDone t progress).rig := by
        rw [byteDone, Transfer.moveByte_snd]
      rw [byteMoments, byteNotes, List.map_cons, List.map_cons, hmoved]
      congr 1
      split
      · exact ih _ _ _
      · rfl

/-- The moments of a transfer are the bytes of its run. -/
theorem moments_moved (h : Host κ (Logged β)) (i : ChannelId) :
    (h.moments i).map (fun b => b.moved.modifyChannel i (·.countDown (h.addressStep i))) =
      (h.transferNotes (fun e => [e]) i).map (fun b => b.1.rig) := by
  have hid := h.prepare_id i
  have hstep := h.prepare_step i
  unfold moments transferNotes
  generalize h.prepare i = prepared at hid hstep ⊢
  obtain ⟨t, progress, start⟩ := prepared
  subst hid
  rw [← hstep]
  exact byteMoments_moved _ t _ progress _ start

variable {i : ChannelId} {word : Bool}
  (hevents : ∀ e : Host κ (Logged β), e.EventWork (Schedule.fire e))

omit [Schedule κ (Logged β)] in
theorem amid_byteDone {h : Host κ (Logged β)} (hamid : h.rig.Amid i word) (t : Transfer)
    (progress : Progress) :
    (h.byteDone t progress).rig.Amid i
      (Logged.word word h.rig.buses (t.poise progress h.rig).2.buses) := by
  unfold byteDone
  rw [Transfer.moveByte_snd]
  exact ((hamid.poise t progress).carry t _).congr rfl rfl

include hevents

theorem amid_passByte {h : Host κ (Logged β)} (hamid : h.rig.Amid i word) (j : ChannelId) :
    (h.passByte j).2.rig.Amid i word := by
  have hsettled : (h.spend slowAccess).settle.rig.Amid i word :=
    settleWithin_induction (P := fun e : Host κ (Logged β) => e.rig.Amid i word)
      (fun e he => (hevents e).amid he) settleLimit (h := h.spend slowAccess) (hamid.congr rfl rfl)
  exact hsettled.ranInside ∅

/-- All bytes of a transfer are moved amid it, and it is left amid its work. -/
theorem amid_moveBytes (t : Transfer) (n : Nat) {progress : Progress} {word : Bool}
    {h : Host κ (Logged β)} (hamid : h.rig.Amid i word) :
    (∀ b ∈ byteMoments t n progress word h, b.rig.Amid i b.word ∧ b.moved.Amid i b.word) ∧
      ∃ word, (moveBytes t n progress h).2.rig.Amid i word := by
  induction n generalizing progress word h with
  | zero => exact ⟨List.forall_mem_nil _, word, hamid⟩
  | succ n ih =>
      have hpoised := hamid.poise t progress
      have hpassed := amid_passByte hevents (amid_byteDone hamid t progress) t.id
      rw [byteMoments, moveBytes_succ]
      split
      · obtain ⟨hmoments, hlast⟩ := ih hpassed
        exact ⟨List.forall_mem_cons.mpr ⟨⟨hpoised, hpoised.carry t _⟩, hmoments⟩, hlast⟩
      · exact ⟨List.forall_mem_cons.mpr ⟨⟨hpoised, hpoised.carry t _⟩, List.forall_mem_nil _⟩, _,
          hpassed⟩

omit hevents [Schedule κ (Logged β)] in
/-- A transfer that starts with nothing running has no word but its own. -/
theorem amid_prepare {h : Host κ (Logged β)} (hidle : h.rig.Idle) (i : ChannelId) :
    (h.prepare i).2.2.rig.Amid i
      (Logged.word false h.rig.buses (h.prepare i).2.2.rig.buses) := by
  have hstarted : (h.noteStart i).rig.Amid i false := by
    have hactivity : (h.noteStart i).rig.controller.activity =
        { Activity.idle with
          inTransfer := true, busy := true, current := some (UInt8.ofNat i.val) } := by
      rw [← hidle.activity]
      rfl
    constructor
    · rw [hactivity]
    · rw [hactivity]
    · rw [hactivity]
      rfl
    · rw [hactivity]
    · rw [hactivity]
      rfl
    · exact hidle.taken
  have hsilent : (h.noteStart i).rig.buses = h.rig.buses := rfl
  unfold prepare
  dsimp only
  split
  · exact hstarted.silent.congr rfl rfl
  · obtain ⟨d, hready⟩ := (h.noteStart i).takeDecoderReady_snd
    rw [hready]
    have hready : (((h.noteStart i).modifyController fun k => { k with decoder := d }).spend
        slowAccess).rig.Amid i false := hstarted.congr rfl rfl
    exact hready.begin _ _

/-- A transfer that starts with nothing running moves its bytes amid its work, and leaves nothing
running behind. -/
theorem idle_runChannel {h : Host κ (Logged β)} (hidle : h.rig.Idle) (i : ChannelId) :
    (h.runChannel i).2.rig.Idle ∧
      ∀ b ∈ h.moments i, b.rig.Amid i b.word ∧ b.moved.Amid i b.word := by
  have hrest := h.resting_runChannel i
  have hprepared := amid_prepare hidle i
  rw [runChannel_eq] at hrest ⊢
  unfold moments
  generalize h.prepare i = prepared at hrest hprepared ⊢
  obtain ⟨t, progress, start⟩ := prepared
  obtain ⟨hmoments, word, hlast⟩ := amid_moveBytes hevents t (h.rig.channel i).length hprepared
  refine ⟨⟨?_, ?_⟩, hmoments⟩
  · have hran := hrest.ranInside
    rw [controller_conclude] at hran ⊢
    generalize moveBytes t (h.rig.channel i).length progress start = moved at hlast hran ⊢
    show Activity.mk false moved.2.rig.controller.activity.inLine false false none
      moved.2.rig.controller.activity.ranInside = .idle
    rw [hlast.inLine, show moved.2.rig.controller.activity.ranInside = ∅ from hran]
    rfl
  · rw [buses_conclude]
    rfl

/-- At all events of a transfer it is amid its work. -/
theorem amid_events {h : Host κ (Logged β)} (hidle : h.rig.Idle) (i : ChannelId) :
    ∀ e ∈ h.events i, ∃ word, e.rig.Amid i word := by
  have hprepared := amid_prepare hidle i
  have hfire : ∀ e : Host κ (Logged β), (∃ word, e.rig.Amid i word) →
      ∃ word, (Schedule.fire e).rig.Amid i word :=
    fun e ⟨word, hamid⟩ => ⟨word, (hevents e).amid hamid⟩
  unfold events transferNotes
  generalize h.prepare i = prepared at hprepared ⊢
  obtain ⟨t, progress, start⟩ := prepared
  intro e he
  obtain ⟨byte, hbyte, he⟩ := List.mem_flatMap.mp he
  obtain ⟨⟨word, hamid⟩, hnotes, -⟩ := byteNotes_induction
    (P := fun h : Host κ (Logged β) => ∃ word, h.rig.Amid i word)
    (fun progress _ ⟨_, hamid⟩ => ⟨_, amid_byteDone hamid t progress⟩)
    (fun _ ⟨word, hamid⟩ => ⟨word, amid_passByte hevents hamid t.id⟩) ⟨_, hprepared⟩ byte hbyte
  rw [hnotes] at he
  refine settleNotes_induction (P := fun h : Host κ (Logged β) => ∃ word, h.rig.Amid i word)
    (Q := fun h : Host κ (Logged β) => ∃ word, h.rig.Amid i word) hfire
    (fun e hamid x hx => ?_) settleLimit (h := byte.1.spend slowAccess)
    ⟨word, hamid.congr rfl rfl⟩ e he
  rwa [List.mem_singleton.mp hx]

end Host

/-! ### Tasks -/

/-- What can be asked of a controller from outside. -/
inductive Task where
  /-- The processor writes a register. -/
  | write (a : UInt16) (v : UInt8)
  /-- The general transfers of a set of channels run. -/
  | start (m : ChannelMask)
  /-- The general transfer of a channel runs. -/
  | transfer (i : ChannelId)
  /-- A frame begins. -/
  | frame
  /-- A line has ended, and any channels are to run. -/
  | line (m : ChannelMask)
  /-- A channel fetches a header of its table. -/
  | header (i : ChannelId)
  /-- The channels are put into their power-on state. -/
  | reset

namespace Task

variable {κ β : Type} [Buses β] [Schedule κ β]

/-- Carries out a task. -/
def run : Task → Host κ β → Host κ β
  | write a v, h => h.writeRegister a v
  | start m, h => h.startChannels m
  | transfer i, h => (h.runChannel i).2
  | frame, h => h.modifyRig Rig.beginFrame
  | line m, h => h.modifyRig fun r => (r.runLine m).2
  | header i, h => h.modifyRig fun r => (r.fetchHeader i).2
  | reset, h => h.modifyController Controller.resetChannels

/-- The general transfers of a task, each with the host at its start. -/
def transfers : Task → Host κ β → List (Host κ β × ChannelId)
  | write a v, h => h.startedBy a v
  | start m, h => h.starting m
  | transfer i, h => [(h, i)]
  | _, _ => []

end Task

namespace Host

section

variable {κ β : Type} [Buses β] [Schedule κ β]

/-- Carries out tasks one after the other. -/
def afterTasks (h : Host κ β) (tasks : List Task) : Host κ β :=
  tasks.foldl (fun h task => task.run h) h

/-- The general transfers of a row of tasks. -/
def transfersOf : Host κ β → List Task → List (Host κ β × ChannelId)
  | _, [] => []
  | h, task :: tasks => task.transfers h ++ (task.run h).transfersOf tasks

end

end Host

namespace Rig.Idle

variable {β : Type} [Buses β] {r : Rig (Logged β)}

omit [Buses β] in
theorem said (h : r.Idle) : r.Said Logged.taken false := ⟨h.taken, by rw [h.activity]; rfl⟩

theorem line (h : r.Idle) (m : ChannelMask) : (r.runLine m).2.Idle := by
  refine ⟨?_, (h.said.line Logged.heeds m).buses⟩
  rw [r.activity_runLine m, h.activity]
  rfl

theorem frame (h : r.Idle) : r.beginFrame.Idle := by
  refine ⟨?_, (h.said.frame Logged.heeds).buses⟩
  rw [r.activity_beginFrame, h.activity]
  rfl

theorem header (h : r.Idle) (i : ChannelId) : (r.fetchHeader i).2.Idle := by
  have hactivity := r.activity_fetchHeader i
  have hsaid := h.said.works Logged.heeds (r.works_fetchHeader i) (by rw [hactivity])
  exact ⟨hactivity.trans h.activity, hsaid.buses⟩

end Rig.Idle

namespace Host

variable {κ β : Type} [Buses β] [Schedule κ (Logged β)]
  (hevents : ∀ e : Host κ (Logged β), e.EventWork (Schedule.fire e))

include hevents

theorem idle_startChannels {h : Host κ (Logged β)} (hidle : h.rig.Idle) (m : ChannelMask) :
    (h.startChannels m).rig.Idle ∧ ∀ t ∈ h.starting m, t.1.rig.Idle := by
  unfold startChannels starting
  split
  · exact ⟨hidle, List.forall_mem_nil _⟩
  · exact Rig.foldl_turnsOf (P := fun h : Host κ (Logged β) => h.rig.Idle) (Q := fun _ => True)
      (fun _ i hidle _ => (idle_runChannel hevents hidle i).1) m.toList
      (s := h.spend h.rig.controller.settings.syncDelay) ⟨hidle.activity, hidle.taken⟩
      (fun _ _ => trivial)

/-- A task that finds nothing running leaves nothing running, nor do its transfers. -/
theorem idle_task {h : Host κ (Logged β)} (hidle : h.rig.Idle) (task : Task) :
    (task.run h).rig.Idle ∧ ∀ t ∈ task.transfers h, t.1.rig.Idle := by
  cases task with
  | write a v =>
      show (h.writeRegister a v).rig.Idle ∧ ∀ t ∈ h.startedBy a v, t.1.rig.Idle
      unfold startedBy
      by_cases ha : a = 0x420B
      · rw [if_pos ha, ha]
        exact idle_startChannels hevents hidle ⟨v⟩
      · obtain ⟨hactivity, hbuses⟩ := writeRegister_aside h ha v
        rw [if_neg ha]
        exact ⟨⟨hactivity.trans hidle.activity, hbuses ▸ hidle.taken⟩, List.forall_mem_nil _⟩
  | start m => exact idle_startChannels hevents hidle m
  | transfer i =>
      refine ⟨(idle_runChannel hevents hidle i).1, ?_⟩
      intro t ht
      rwa [List.mem_singleton.mp ht]
  | frame => exact ⟨hidle.frame, List.forall_mem_nil _⟩
  | line m => exact ⟨hidle.line m, List.forall_mem_nil _⟩
  | header i => exact ⟨hidle.header i, List.forall_mem_nil _⟩
  | reset => exact ⟨⟨hidle.activity, hidle.taken⟩, List.forall_mem_nil _⟩

theorem idle_tasks (tasks : List Task) {h : Host κ (Logged β)} (hidle : h.rig.Idle) :
    (h.afterTasks tasks).rig.Idle ∧ ∀ t ∈ h.transfersOf tasks, t.1.rig.Idle := by
  induction tasks generalizing h with
  | nil => exact ⟨hidle, List.forall_mem_nil _⟩
  | cons task tasks ih =>
      obtain ⟨hdone, hstarts⟩ := idle_task hevents hidle task
      obtain ⟨hlast, hrest⟩ := ih hdone
      exact ⟨hlast, List.forall_mem_append.mpr ⟨hstarts, hrest⟩⟩

end Host

/-- Tasks that are carried out one after the other, with nothing running before, leave nothing
running behind.  In each general transfer among them every byte, as the run moves and counts it, is
moved amid the work of the transfer, which goes by its own last word on work RAM, and so do the
buses; and at its events, whatever these have done so far, the processor cannot start another nor
enable channels. -/
theorem tasks_disciplined {κ β : Type} [Buses β] [Schedule κ (Logged β)]
    (hevents : ∀ e : Host κ (Logged β), e.EventWork (Schedule.fire e))
    {h : Host κ (Logged β)} (hidle : h.rig.Idle) (tasks : List Task) :
    (h.afterTasks tasks).rig.Idle ∧
      ∀ t ∈ h.transfersOf tasks,
        ((t.1.moments t.2).map
            (fun b => b.moved.modifyChannel t.2 (·.countDown (t.1.addressStep t.2))) =
          (t.1.transferNotes (fun e => [e]) t.2).map (fun b => b.1.rig)) ∧
        (∀ b ∈ t.1.moments t.2, b.rig.Amid t.2 b.word ∧ b.moved.Amid t.2 b.word) ∧
        ∀ e ∈ t.1.events t.2, ∀ e', e.EventWork e' → ∀ v,
          e'.writeRegister 0x420B v = e' ∧ e'.writeRegister 0x420C v = e' := by
  obtain ⟨hlast, hstarts⟩ := Host.idle_tasks hevents tasks hidle
  refine ⟨hlast, fun t ht => ⟨t.1.moments_moved t.2,
    (Host.idle_runChannel hevents (hstarts t ht) t.2).2, ?_⟩⟩
  intro e he e' hwork v
  obtain ⟨word, hamid⟩ := Host.amid_events hevents (hstarts t ht) t.2 e he
  exact Host.writeRegister_of_busy (hwork.amid hamid).busy v

/-- Lines come between the bytes of a transfer out of work RAM, and the second one is given its
channel: two bytes are moved, each with the word of the transfer, and nothing runs in the end. -/
theorem amongLines_disciplined :
    let h := amongLines [(60, .single 1), (94, .single 4)]
    let tasks : List Task := [.line (.single 2), .start (.single 4), .frame]
    ((h.transfersOf tasks).flatMap fun t => (t.1.moments t.2).map (·.word)) = [true, true] ∧
      (h.afterTasks tasks).rig.Idle ∧
      ∀ t ∈ h.transfersOf tasks,
        ((t.1.moments t.2).map
            (fun b => b.moved.modifyChannel t.2 (·.countDown (t.1.addressStep t.2))) =
          (t.1.transferNotes (fun e => [e]) t.2).map (fun b => b.1.rig)) ∧
        (∀ b ∈ t.1.moments t.2, b.rig.Amid t.2 b.word ∧ b.moved.Amid t.2 b.word) ∧
        ∀ e ∈ t.1.events t.2, ∀ e', e.EventWork e' → ∀ v,
          e'.writeRegister 0x420B v = e' ∧ e'.writeRegister 0x420C v = e' := by
  intro h tasks
  have hevents : ∀ e : Host LineQueue (Logged Board), e.EventWork (Schedule.fire e) := by
    rintro ⟨r, ⟨_ | ⟨line, lines⟩⟩⟩
    · exact .start
    · exact (Host.EventWork.start.line line.2).aside rfl rfl
  exact ⟨by decide +kernel, tasks_disciplined hevents ⟨rfl, rfl⟩ tasks⟩

end DmaController
