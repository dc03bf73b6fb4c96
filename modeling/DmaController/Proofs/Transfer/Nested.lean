import DmaController.Proofs.LineTransfer.Requests
import DmaController.Proofs.Transfer.Events

/-! # Work inside of work

The events of a general transfer may do whatever can be done to a controller: write its registers,
ask for line transfers, and start general transfers with events of their own.  `Host.Runs` takes
such work apart, with all that is nested in it, and collects its stops: the rigs at which no line
transfer is in progress, between any two pieces of work and behind every byte.

Beside the requests, all work leaves the sets of channels alone, and of every channel the unit that
is pending and the direct access (`Rig.Aside`).  A relation that is borne out by such work, by the
requests that may be asked and from one piece of work to the next (`Rig.Along`) is therefore borne
out by general transfers and register writes, however they are nested.  Seen from the sets of
channels alone, nested work is a path like any other (`Runs.path`). -/

namespace DmaController

namespace Host

variable {κ β : Type} [Buses β] [Schedule κ β]

/-! ### The stops of general transfers -/

/-- The stops behind the bytes of a transfer and at the events after them. -/
def byteStops (bytes : List (Host κ β × List (Stop β))) : List (Stop β) :=
  bytes.flatMap fun byte => (byte.1.rig, none) :: byte.2

/-- The stops of the transfer of channel `i`, with those that `note` says its events have. -/
def transferStops (note : Host κ β → List (Stop β)) (h : Host κ β) (i : ChannelId) :
    List (Stop β) :=
  (h.rig, none) :: byteStops (h.transferNotes note i)

/-- The transfers that a set of channels starts, each with the host at its start. -/
def starting (h : Host κ β) (m : ChannelMask) : List (Host κ β × ChannelId) :=
  if h.rig.controller.activity.busy || m == ∅ then []
  else
    Rig.turnsOf (fun h i => (h.runChannel i).2) m.toList
      (h.spend h.rig.controller.settings.syncDelay)

/-- The stops of the transfers that a set of channels starts. -/
def startStops (note : Host κ β → List (Stop β)) (h : Host κ β) (m : ChannelMask) :
    List (Stop β) :=
  (h.rig, none) :: (h.starting m).flatMap fun t => t.1.transferStops note t.2

/-- The transfers that the processor starts by writing a register. -/
def startedBy (h : Host κ β) (a : UInt16) (v : UInt8) : List (Host κ β × ChannelId) :=
  if a = 0x420B then h.starting ⟨v⟩ else []

/-- The stops of a register write of the processor. -/
def writeStops (note : Host κ β → List (Stop β)) (h : Host κ β) (a : UInt16) (v : UInt8) :
    List (Stop β) :=
  if a = 0x420B then h.startStops note ⟨v⟩
  else if a = 0x420C then [(h.rig, some (.enable ⟨v⟩))]
  else [(h.rig, none)]

/-! ### Along general transfers -/

end Host

/-- From `r` to `r'` the three sets have stayed, and of every channel the unit that is pending and
the direct access. -/
structure Rig.Aside {β : Type} (r r' : Rig β) : Prop extends r.SameSets r' where
  pending : ∀ i, (r'.channel i).pending = (r.channel i).pending
  cache : ∀ i, (r'.channel i).cache = (r.channel i).cache

namespace Rig.Aside

variable {β : Type} {r r' r'' : Rig β}

theorem trans (h : r.Aside r') (h' : r'.Aside r'') : r.Aside r'' :=
  ⟨h.toSameSets.trans h'.toSameSets, fun i => (h'.pending i).trans (h.pending i),
    fun i => (h'.cache i).trans (h.cache i)⟩

theorem of_keeps (h : r.Keeps r') : r.Aside r' := by
  refine ⟨.of_keeps h, ?_, ?_⟩ <;> intro i <;> rw [h.channel]

theorem modifyChannel (r : Rig β) (i : ChannelId) {f : Channel → Channel}
    (hpending : ∀ c, (f c).pending = c.pending) (hcache : ∀ c, (f c).cache = c.cache) :
    r.Aside (r.modifyChannel i f) := by
  refine ⟨⟨rfl, rfl, rfl⟩, ?_, ?_⟩
  · intro j
    rw [channel_modifyChannel]
    split
    · rename_i hij
      rw [hpending, hij]
    · rfl
  · intro j
    rw [channel_modifyChannel]
    split
    · rename_i hij
      rw [hcache, hij]
    · rfl

end Rig.Aside

/-- A relation between rigs, with stops on the way, that goes along with all work on a controller,
where these requests may be asked. -/
structure Rig.Along {β : Type} [Buses β] (Asks : Rig β → LineRequest → Prop)
    (R : Rig β → List (Stop β) → Rig β → Prop) : Prop where
  done : ∀ r, R r [] r
  trans : ∀ {r r' r'' stops stops'}, R r stops r' → R r' stops' r'' → R r (stops ++ stops') r''
  aside : ∀ {r r' : Rig β}, r.Aside r' → R r [] r'
  /-- All channels are put into their power-on state. -/
  reset : ∀ r : Rig β, R r [] { r with controller := r.controller.resetChannels }
  stop : ∀ r, R r [(r, none)] r
  request : ∀ {r q}, Asks r q → R r [(r, some q)] (r.serve q).2

namespace Rig.Along

variable {β : Type} [Buses β] {Asks : Rig β → LineRequest → Prop}
  {R : Rig β → List (Stop β) → Rig β → Prop} (hR : Rig.Along Asks R) {r r' r'' : Rig β}
  {stops : List (Stop β)}

include hR

theorem behind (haside : r.Aside r') (h : R r' stops r'') : R r stops r'' :=
  hR.trans (hR.aside haside) h

theorem before (h : R r stops r') (haside : r'.Aside r'') : R r stops r'' := by
  have hlast := hR.trans h (hR.aside haside)
  rwa [List.append_nil] at hlast

theorem stopped (h : R r stops r') : R r ((r, none) :: stops) r' := hR.trans (hR.stop r) h

end Rig.Along

theorem Rig.Path.along {β : Type} [Buses β] (Asks : Rig β → LineRequest → Prop) :
    Rig.Along Asks (Rig.Path Asks) where
  done := .done
  trans := .trans
  aside h := .of_sets h.toSameSets
  reset _ := .of_sets ⟨rfl, rfl, rfl⟩
  stop r := .stop (.done r)
  request hq := .request hq (.done _)

namespace Host

variable {κ β : Type} [Buses β] [Schedule κ β]

section

variable {Asks : Rig β → LineRequest → Prop} {R : Rig β → List (Stop β) → Rig β → Prop}
  (hR : Rig.Along Asks R) {note : Host κ β → List (Stop β)}

include hR

theorem along_passByte (i : ChannelId) {h : Host κ β}
    (hevents : ∀ e ∈ settleNotes (fun e => [e]) settleLimit (h.spend slowAccess),
      R e.rig (note e) (Schedule.fire e).rig) :
    R h.rig (settleNotes note settleLimit (h.spend slowAccess)) (h.passByte i).2.rig := by
  have hsettled := settleWithin_run note hR.done hR.trans settleLimit hevents
  have hspent : h.rig.Aside (h.spend slowAccess).rig :=
    ⟨⟨rfl, rfl, rfl⟩, fun _ => rfl, fun _ => rfl⟩
  have htaken : (settleWithin settleLimit (h.spend slowAccess)).rig.Aside
      (h.passByte i).2.rig := ⟨⟨rfl, rfl, rfl⟩, fun _ => rfl, fun _ => rfl⟩
  exact hR.before (hR.behind hspent hsettled) htaken

theorem along_moveBytes (t : Transfer) (n : Nat) {progress : Progress} {h : Host κ β}
    (hevents : ∀ e ∈ (byteNotes (fun e => [e]) t n progress h).flatMap Prod.snd,
      R e.rig (note e) (Schedule.fire e).rig) :
    R h.rig (byteStops (byteNotes note t n progress h)) (moveBytes t n progress h).2.rig := by
  induction n generalizing progress h with
  | zero => exact hR.done h.rig
  | succ n ih =>
      rw [byteNotes, List.flatMap_cons] at hevents
      have hdone : h.rig.Aside (h.byteDone t progress).rig :=
        (Rig.Aside.of_keeps (keeps_moveByte t progress h.rig)).trans
          (.modifyChannel _ t.id (f := fun c => c.countDown t.step) (fun _ => rfl) fun _ => rfl)
      have hpassed := along_passByte hR t.id (h := h.byteDone t progress)
        fun e he => hevents e (List.mem_append_left _ he)
      rw [moveBytes_succ, byteNotes, byteStops, List.flatMap_cons, List.cons_append]
      refine hR.behind hdone (hR.stopped (hR.trans hpassed ?_))
      split
      · rename_i hgo
        rw [if_pos hgo] at hevents
        exact ih fun e he => hevents e (List.mem_append_right _ he)
      · exact hR.done _

theorem along_runChannel {h : Host κ β} {i : ChannelId}
    (hevents : ∀ e ∈ h.events i, R e.rig (note e) (Schedule.fire e).rig) :
    R h.rig (h.transferStops note i) (h.runChannel i).2.rig := by
  have hprepared : h.rig.Aside (h.prepare i).2.2.rig := by
    obtain ⟨d, hkeeps⟩ := h.keeps_prepare i
    have hkept := Rig.Aside.of_keeps hkeeps
    exact ⟨⟨hkept.active, hkept.enabled, hkept.ended⟩, hkept.pending, hkept.cache⟩
  rw [runChannel_eq]
  unfold transferStops transferNotes
  unfold events transferNotes at hevents
  generalize h.prepare i = prepared at hprepared hevents ⊢
  obtain ⟨t, progress, start⟩ := prepared
  have hmoved := along_moveBytes hR t (h.rig.channel i).length hevents
  have hconcluded : (moveBytes t (h.rig.channel i).length progress start).2.rig.Aside
      ((moveBytes t (h.rig.channel i).length progress start).2.conclude
        (h.rig.channel i).feedsWorkRamItself
        (moveBytes t (h.rig.channel i).length progress start).1).rig := by
    refine ⟨⟨?_, ?_, ?_⟩, ?_, ?_⟩
    · rw [controller_conclude]
    · rw [controller_conclude]
    · rw [controller_conclude]
    · intro j
      rw [channel_conclude]
    · intro j
      rw [channel_conclude]
  exact hR.stopped (hR.before (hR.behind hprepared hmoved) hconcluded)

/-- Transfers run one after the other. -/
theorem along_turnsOf (l : List ChannelId) {h : Host κ β}
    (hevents : ∀ t ∈ Rig.turnsOf (fun h i => (h.runChannel i).2) l h, ∀ e ∈ t.1.events t.2,
      R e.rig (note e) (Schedule.fire e).rig) :
    R h.rig
      ((Rig.turnsOf (fun h i => (h.runChannel i).2) l h).flatMap
        fun t => t.1.transferStops note t.2)
      (l.foldl (fun h i => (h.runChannel i).2) h).rig := by
  induction l generalizing h with
  | nil => exact hR.done h.rig
  | cons i l ih =>
      obtain ⟨hfirst, hrest⟩ := List.forall_mem_cons.mp hevents
      exact hR.trans (along_runChannel hR hfirst) (ih hrest)

theorem along_startChannels {h : Host κ β} {m : ChannelMask}
    (hevents : ∀ t ∈ h.starting m, ∀ e ∈ t.1.events t.2,
      R e.rig (note e) (Schedule.fire e).rig) :
    R h.rig (h.startStops note m) (h.startChannels m).rig := by
  unfold startStops
  unfold starting at hevents ⊢
  unfold startChannels
  refine hR.stopped ?_
  split
  · exact hR.done h.rig
  · rename_i hidle
    rw [if_neg hidle] at hevents
    have hspent : h.rig.Aside (h.spend h.rig.controller.settings.syncDelay).rig :=
      ⟨⟨rfl, rfl, rfl⟩, fun _ => rfl, fun _ => rfl⟩
    exact hR.behind hspent (along_turnsOf hR m.toList hevents)

theorem along_writeRegister {h : Host κ β} {a : UInt16} {v : UInt8}
    (henable : Asks h.rig (.enable ⟨v⟩))
    (hevents : ∀ t ∈ h.startedBy a v, ∀ e ∈ t.1.events t.2,
      R e.rig (note e) (Schedule.fire e).rig) :
    R h.rig (h.writeStops note a v) (h.writeRegister a v).rig := by
  unfold startedBy at hevents
  unfold writeStops writeRegister
  by_cases hstart : a = 0x420B
  · rw [if_pos hstart, if_pos hstart]
    rw [if_pos hstart] at hevents
    exact along_startChannels hR hevents
  rw [if_neg hstart, if_neg hstart]
  split
  · exact hR.request henable
  refine hR.stopped (hR.aside ?_)
  split
  · exact .modifyChannel h.rig (Controller.channelOf a)
      (fun c => c.pending_writeRegister a.toNat v) fun c => c.cache_writeRegister a.toNat v
  split
  · show h.rig.Aside { h.rig with controller := h.rig.controller.writeReady v }
    unfold Controller.writeReady
    split <;> exact ⟨⟨rfl, rfl, rfl⟩, fun _ => rfl, fun _ => rfl⟩
  · exact ⟨⟨rfl, rfl, rfl⟩, fun _ => rfl, fun _ => rfl⟩

end

/-! ### Nested work -/

/-- Work has led from `h` to `h'` with these stops.  Where general transfers run in it, the work of
their events is taken apart likewise. -/
inductive Runs : Host κ β → List (Stop β) → Host κ β → Prop
  | done (h : Host κ β) : Runs h [(h.rig, none)] h
  /-- Something is done that has nothing to do with the controller. -/
  | aside {h h' h'' : Host κ β} {stops : List (Stop β)}
      (controller : h'.rig.controller = h.rig.controller) (rest : Runs h' stops h'') :
      Runs h ((h.rig, none) :: stops) h''
  /-- The processor writes a register. -/
  | write {h h' : Host κ β} {stops : List (Stop β)} (a : UInt16) (v : UInt8)
      (note : Host κ β → List (Stop β))
      (inside : ∀ t ∈ h.startedBy a v, ∀ e ∈ t.1.events t.2, Runs e (note e) (Schedule.fire e))
      (rest : Runs (h.writeRegister a v) stops h') : Runs h (h.writeStops note a v ++ stops) h'
  /-- The transfers of a set of channels are started. -/
  | start {h h' : Host κ β} {stops : List (Stop β)} (m : ChannelMask)
      (note : Host κ β → List (Stop β))
      (inside : ∀ t ∈ h.starting m, ∀ e ∈ t.1.events t.2, Runs e (note e) (Schedule.fire e))
      (rest : Runs (h.startChannels m) stops h') : Runs h (h.startStops note m ++ stops) h'
  /-- The transfer of a channel runs. -/
  | transfer {h h' : Host κ β} {stops : List (Stop β)} (i : ChannelId)
      (note : Host κ β → List (Stop β))
      (inside : ∀ e ∈ h.events i, Runs e (note e) (Schedule.fire e))
      (rest : Runs (h.runChannel i).2 stops h') : Runs h (h.transferStops note i ++ stops) h'
  /-- A frame begins. -/
  | frame {h h' : Host κ β} {stops : List (Stop β)}
      (rest : Runs { h with rig := h.rig.beginFrame } stops h') :
      Runs h ((h.rig, some .frame) :: stops) h'
  /-- A line has ended, and any channels are to run. -/
  | line {h h' : Host κ β} {stops : List (Stop β)} (m : ChannelMask)
      (rest : Runs { h with rig := (h.rig.runLine m).2 } stops h') :
      Runs h ((h.rig, some (.line m)) :: stops) h'

theorem Runs.path {h h' : Host κ β} {stops : List (Stop β)} (hruns : Runs h stops h') :
    Rig.Path (fun _ _ => True) h.rig stops h'.rig := by
  induction hruns with
  | done h => exact .stop (.done h.rig)
  | aside hcontroller _ ih =>
      exact .stop (.aside (by constructor <;> rw [hcontroller]) ih)
  | write a v note _ _ inside ih =>
      exact (along_writeRegister (Rig.Path.along _) trivial inside).trans ih
  | start m note _ _ inside ih => exact (along_startChannels (Rig.Path.along _) inside).trans ih
  | transfer i note _ _ inside ih => exact (along_runChannel (Rig.Path.along _) inside).trans ih
  | frame _ ih => exact .request trivial ih
  | line m _ ih => exact .request trivial ih

end Host

end DmaController
