import DmaController.Proofs.LineTransfer.Turns

/-! # What work is made of

Line transfers and the bytes of general ones are made of few kinds of steps: accesses to the buses
(`Buses.Step`), changes of the record, cycles that are counted, and words on work RAM, which the
controller and the buses are told together.  `Works r s` says that such steps have led from `r` to
`s`.  There is one lemma for each operation, and from then on an operation need not be opened any
more to see that it leaves the settings alone (`Works.settings`), or that controller and buses think
alike of work RAM behind it if they did before (`Works.heeded`). -/

namespace DmaController

variable {β : Type} [Buses β]

/-- One access has led the buses from one state to another. -/
inductive Buses.Step {β : Type} [Buses β] : β → β → Prop
  | read (a : Address) (b : β) : Step b (Buses.read a b).2
  | readWord (a : Address) (b : β) : Step b (Buses.readWord a b).2
  | write (a : Address) (v : UInt8) (b : β) : Step b (Buses.write a v b)
  | readRegister (a : UInt16) (b : β) : Step b (Buses.readRegister a b).2
  | writeRegister (a : UInt16) (v : UInt8) (b : β) : Step b (Buses.writeRegister a v b)
  | blockPointer (a : Address) (b : β) : Step b (Buses.blockPointer a b).2
  | bytePointer (a : Address) (b : β) : Step b (Buses.bytePointer a b).2
  | peek (p : Pointer) (b : β) : Step b (Buses.peek p b).2
  | writeSprite (v : UInt8) (b : β) : Step b (Buses.writeSprite v b)
  | writeVideo (high remapped : Bool) (v : UInt8) (b : β) :
      Step b (Buses.writeVideo high remapped v b)
  | writeColour (v : UInt8) (b : β) : Step b (Buses.writeColour v b)
  | writeWorkRam (v : UInt8) (b : β) : Step b (Buses.writeWorkRam v b)
  | setOpenBus (v : UInt8) (b : β) : Step b (Buses.setOpenBus v b)
  | setSpriteAddress (a : UInt16) (b : β) : Step b (Buses.setSpriteAddress a b)

/-- The buses keep what was last said about work RAM, where `taken` shows it. -/
structure Heeds (taken : β → Bool) : Prop where
  said : ∀ (v : Bool) (b : β), taken (Buses.setWorkRamTaken v b) = v
  kept : ∀ {b b' : β}, Buses.Step b b' → taken b' = taken b

namespace Rig

/-- From `r` to a rig work was done. -/
inductive Works (r : Rig β) : Rig β → Prop
  | start : Works r r
  | step {s : Rig β} {b : β} (h : Works r s) (access : Buses.Step s.buses b) :
      Works r { s with buses := b }
  /-- The controller changes, but neither its settings nor what it thinks of work RAM. -/
  | record {s : Rig β} {k : Controller} (h : Works r s)
      (settings : k.settings = s.controller.settings)
      (taken : k.activity.workRamTaken = s.controller.activity.workRamTaken) :
      Works r { s with controller := k }
  | say {s : Rig β} (h : Works r s) (taken : Bool) : Works r (s.setWorkRamTaken taken)
  | spend {s : Rig β} (h : Works r s) (n : Int) : Works r (s.spend n)

namespace Works

variable {r s t : Rig β}

theorem trans (h : Works r s) (h' : Works s t) : Works r t := by
  induction h' with
  | start => exact h
  | step _ haccess ih => exact ih.step haccess
  | record _ hsettings htaken ih => exact ih.record hsettings htaken
  | say _ taken ih => exact ih.say taken
  | spend _ n ih => exact ih.spend n

theorem settings (h : Works r s) : s.controller.settings = r.controller.settings := by
  induction h with
  | start => rfl
  | step _ _ ih => exact ih
  | record _ hsettings _ ih => exact hsettings.trans ih
  | say _ _ ih => exact ih
  | spend _ _ ih => exact ih

/-- Whatever is done, controller and buses are told of work RAM together. -/
theorem heeded {taken : β → Bool} (ht : Heeds taken) (h : Works r s)
    (hr : taken r.buses = r.controller.activity.workRamTaken) :
    taken s.buses = s.controller.activity.workRamTaken := by
  induction h with
  | start => exact hr
  | step _ haccess ih => exact (ht.kept haccess).trans ih
  | record _ _ htaken ih => exact ih.trans htaken.symm
  | say _ v _ => exact ht.said v _
  | spend _ _ ih => exact ih

theorem setChannel (h : Works r s) (i : ChannelId) (c : Channel) : Works r (s.setChannel i c) :=
  h.record rfl rfl

theorem modifyChannel (h : Works r s) (i : ChannelId) (f : Channel → Channel) :
    Works r (s.modifyChannel i f) := h.setChannel i _

theorem setCurrent (h : Works r s) (i : ChannelId) : Works r (s.setCurrent i) :=
  h.record rfl rfl

theorem markEnded (h : Works r s) (i : ChannelId) : Works r (s.markEnded i) := h.record rfl rfl

theorem setActive (h : Works r s) (m : ChannelMask) : Works r (s.setActive m) :=
  h.record rfl rfl

theorem modifyActivity (h : Works r s) {f : Activity → Activity}
    (hf : ∀ a, (f a).workRamTaken = a.workRamTaken) : Works r (s.modifyActivity f) :=
  h.record rfl (hf _)

/-- What every turn of a round does, the round does. -/
theorem foldl {σ α : Type} {f : σ → α → σ} (rig : σ → Rig β)
    (hturn : ∀ s a, Works (rig s) (rig (f s a))) (l : List α) (s : σ) :
    Works (rig s) (rig (l.foldl f s)) := by
  induction l generalizing s with
  | nil => exact .start
  | cons a l ih => exact (hturn s a).trans (ih (f s a))

end Works

/-! ### Units -/

theorem works_forUnit {mode : UnitMode} {step : Nat → UInt8 → Rig β → Rig β}
    (hstep : ∀ k o s, Works s (step k o s)) (r : Rig β) : r.Works (r.forUnit mode step) :=
  Works.foldl (fun s => s) (f := fun s (p : UInt8 × Nat) => step p.2 p.1 s)
    (fun s p => hstep p.2 p.1 s) mode.offsets.zipIdx r

theorem works_collectUnit (c : Channel) (r : Rig β) : r.Works (r.collectUnit c) :=
  works_forUnit (fun _ _ _ => (((Works.start.say _).step (.readRegister _ _)).step
    (.write _ _ _)).spend _) r

theorem works_sendStraddling (c : Channel) (r : Rig β) : r.Works (r.sendStraddling c) :=
  works_forUnit (fun _ _ _ => (((Works.start.say _).step (.read _ _)).step
    (.writeRegister _ _ _)).spend _) r

theorem works_sendMapped (c : Channel) (r : Rig β) : r.Works (r.sendMapped c) :=
  works_forUnit (fun _ _ _ => ((Works.start.step (.read _ _)).step
    (.writeRegister _ _ _)).spend _) r

theorem works_sendDirect (c : Channel) (p : Pointer) (r : Rig β) : r.Works (r.sendDirect c p) := by
  refine works_forUnit (fun k o s => ?_) r
  have hpeek : s.Works (s.peek (p.offset (UInt64.ofNat k))).2 := Works.start.step (.peek _ _)
  dsimp only
  split
  · exact ((hpeek.step (.setOpenBus _ _)).step (.writeRegister _ _ _)).spend _
  · exact (hpeek.step (.writeRegister _ _ _)).spend _

theorem works_refreshCache (r : Rig β) (i : ChannelId) : r.Works (r.refreshCache i) := by
  cases h : (r.channel i).cache with
  | some p =>
      rw [refreshCache_of_some h]
      exact .start
  | none =>
      rw [refreshCache_of_none h]
      exact (Works.start.step (.bytePointer _ _)).setChannel i _

theorem works_pointSprites (c : Channel) (r : Rig β) : r.Works (r.pointSprites c) := by
  unfold pointSprites
  split
  · exact Works.start.step (.setSpriteAddress _ _)
  · exact .start

theorem works_sendUnit (r : Rig β) (i : ChannelId) : r.Works (r.sendUnit i) := by
  have hrefresh := r.works_refreshCache i
  rw [sendUnit_eq]
  generalize r.refreshCache i = s at hrefresh ⊢
  generalize s.channel i = c
  have hpointed := hrefresh.trans (s.works_pointSprites c)
  dsimp only
  split
  · exact hrefresh
  split
  · exact (hpointed.modifyChannel i _).trans (works_collectUnit c _)
  split
  · exact (hpointed.modifyChannel i _).trans (works_sendStraddling c _)
  split
  · exact (hpointed.say _).trans (works_sendMapped c _)
  · exact ((hpointed.say _).trans (works_sendDirect c _ _)).modifyChannel i _

theorem works_sendInTurn (r : Rig β) (i : ChannelId) : r.Works (r.sendInTurn i) := by
  have hnamed : r.Works ((r.setWorkRamTaken false).setCurrent i) :=
    (Works.start.say false).setCurrent i
  exact hnamed.trans (works_sendUnit _ i)

/-! ### Headers -/

theorem works_endTable (r : Rig β) (i : ChannelId) (above : Bool) :
    r.Works (r.endTable i above) := by
  unfold endTable
  dsimp only
  split
  · exact ((Works.start.spend _).step (.readWord _ _)).setChannel i _
  · exact Works.start.setChannel i _

theorem works_openEntry (r : Rig β) (i : ChannelId) (lines : UInt8) (repeats : Bool) :
    r.Works (r.openEntry i lines repeats) := by
  rw [openEntry_eq]
  generalize (r.channel i).takeHeader lines repeats = c
  have hplaced : r.Works (r.fetchPlace c).2 := by
    unfold fetchPlace
    split
    · exact (Works.start.spend _).step (.readWord _ _)
    · exact .start
  generalize r.fetchPlace c = placed at hplaced ⊢
  exact (hplaced.step (.bytePointer _ _)).setChannel i _

theorem works_fetchHeader (r : Rig β) (i : ChannelId) : r.Works (r.fetchHeader i).2 := by
  rw [fetchHeader_eq]
  dsimp only
  generalize Address.of _ _ = a
  have hread : r.Works ((r.read a).2.spend slowAccess) :=
    (Works.start.step (.read a r.buses)).spend _
  cases Header.ofByte (r.read a).1 with
  | stop => exact hread.trans (works_endTable _ i _)
  | entry lines repeats => exact hread.trans (works_openEntry _ i lines repeats)

theorem works_stepLine (running : ChannelMask) (r : Rig β) (i : ChannelId) :
    r.Works (stepLine running r i).2 := by
  have hnext : r.Works (r.modifyChannel i Channel.nextLine) := Works.start.modifyChannel i _
  have hfetched := hnext.trans (works_fetchHeader _ i)
  rw [stepLine_eq]
  dsimp only
  split
  · split
    · exact hfetched
    · exact (hfetched.markEnded i).modifyChannel i fun c => { c with pending := false }
  · exact hnext.spend _

theorem works_prepareChannel (r : Rig β) (i : ChannelId) : r.Works (r.prepareChannel i) := by
  by_cases hi : i ∈ r.controller.active
  · have hrewound : r.Works (r.rewound i) := (Works.start.setCurrent i).modifyChannel i _
    have hfetched := hrewound.trans (works_fetchHeader _ i)
    rw [prepareChannel_of_mem hi]
    dsimp only
    split
    · exact hfetched
    · exact (hfetched.setActive _).markEnded i
  · rw [prepareChannel_of_notMem hi]
    exact Works.start.modifyChannel i _

/-! ### Lines and frames -/

theorem works_openLine (r : Rig β) (m : ChannelMask) : r.Works (r.openLine m) := by
  have hopened : r.Works (r.modifyActivity fun a =>
      { a with inLine := true, busy := true, ranInside := if a.inTransfer then m else ∅ }) :=
    Works.start.modifyActivity fun _ => rfl
  exact hopened.spend _

theorem works_closeLine (before : Activity) (m running : ChannelMask) (r : Rig β) :
    r.Works (r.closeLine before m running) := by
  have hended : r.Works
      (r.modifyActivity fun a => { a with inLine := false, busy := a.inTransfer }) :=
    Works.start.modifyActivity fun _ => rfl
  have hsaid := hended.say before.workRamTaken
  exact (hsaid.modifyActivity (f := fun a => { a with current := before.current })
    fun _ => rfl).setActive _

theorem works_runLine (r : Rig β) (m : ChannelMask) : r.Works (r.runLine m).2 := by
  have hsent := Works.foldl (fun s => s) works_sendInTurn m.toList (r.openLine m)
  have hstepped := Works.foldl (fun s : ChannelMask × Rig β => s.2)
    (fun s i => works_stepLine s.1 s.2 i) m.toList (m, r.sendLine m)
  rw [runLine_snd]
  exact (((r.works_openLine m).trans hsent).trans hstepped).trans (works_closeLine _ m _ _)

theorem works_openFrame (r : Rig β) : r.Works r.openFrame := by
  have hrecord : r.Works { r with controller := r.openFrame.controller } :=
    Works.start.record (by rw [controller_openFrame]) (by rw [controller_openFrame])
  unfold openFrame at hrecord ⊢
  dsimp only at hrecord ⊢
  split
  · rename_i hnone
    rwa [if_pos hnone] at hrecord
  · rename_i hsome
    rw [if_neg hsome] at hrecord
    exact hrecord.spend _

theorem works_beginFrame (r : Rig β) : r.Works r.beginFrame := by
  have hprepared := Works.foldl (fun s => s) works_prepareChannel (List.finRange 8) r.openFrame
  rw [beginFrame_eq]
  exact (r.works_openFrame.trans hprepared).modifyActivity fun _ => rfl

/-! ### The word on work RAM -/

/-- Controller and buses have this word on work RAM. -/
structure Said (taken : β → Bool) (word : Bool) (r : Rig β) : Prop where
  buses : taken r.buses = word
  controller : r.controller.activity.workRamTaken = word

section

variable {taken : β → Bool} (ht : Heeds taken)

include ht

theorem taken_read (r : Rig β) (a : Address) : taken (r.read a).2.buses = taken r.buses :=
  ht.kept (.read a r.buses)

theorem taken_peek (r : Rig β) (p : Pointer) : taken (r.peek p).2.buses = taken r.buses :=
  ht.kept (.peek p r.buses)

theorem taken_setOpenBus (r : Rig β) (v : UInt8) :
    taken (r.modifyBuses (Buses.setOpenBus v)).buses = taken r.buses :=
  ht.kept (.setOpenBus v r.buses)

theorem taken_writeRegister (r : Rig β) (a : UInt16) (v : UInt8) :
    taken (r.writeRegister a v).buses = taken r.buses := ht.kept (.writeRegister a v r.buses)

end

namespace Said

variable {taken : β → Bool} {word : Bool} {r r' : Rig β}

theorem say (ht : Heeds taken) (word : Bool) (r : Rig β) :
    (r.setWorkRamTaken word).Said taken word := ⟨ht.said word r.buses, rfl⟩

/-- Work that leaves the controller its word leaves the buses theirs. -/
theorem works (ht : Heeds taken) (h : r.Said taken word) (hworks : r.Works r')
    (hword : r'.controller.activity.workRamTaken = r.controller.activity.workRamTaken) :
    r'.Said taken word := by
  have hcontroller := hword.trans h.controller
  exact ⟨(hworks.heeded ht (h.buses.trans h.controller.symm)).trans hcontroller, hcontroller⟩

theorem line (ht : Heeds taken) (h : r.Said taken word) (m : ChannelMask) :
    (r.runLine m).2.Said taken word :=
  h.works ht (r.works_runLine m) (workRamTaken_runLine r m)

theorem frame (ht : Heeds taken) (h : r.Said taken word) : r.beginFrame.Said taken word :=
  h.works ht r.works_beginFrame (workRamTaken_beginFrame r)

end Said

end Rig

end DmaController
