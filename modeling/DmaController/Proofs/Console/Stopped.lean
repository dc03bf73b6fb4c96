import DmaController.Proofs.Console.Ended
import DmaController.Proofs.LineTransfer.Cache

/-! # Channels that stand still

The table of a channel ends on one of two ways.  In a line the channel is stepped on, finds the end,
and gives up its unit and its direct access together.  At the top of a frame it finds the end at
once; there it gives up its direct access, but keeps a unit that the last frame has left pending
(`Rig.pending_beginFrame`).  So in whatever state a console is found, a channel that has ended has
no direct access, and whether it has a unit pending is a matter of those frames alone
(`ended_still_iff`). -/

namespace DmaController

/-! ### The end of a table -/

namespace Rig

variable {β : Type} [Buses β] {r : Rig β} {i : ChannelId}

/-- The end of a table leaves the unit that is pending. -/
theorem pending_fetchHeader (hstop : (r.fetchHeader i).1 = false) :
    ((r.fetchHeader i).2.channel i).pending = (r.channel i).pending := by
  rw [fetchHeader_eq] at hstop ⊢
  dsimp only at hstop ⊢
  generalize Address.of _ _ = a at hstop ⊢
  cases hheader : Header.ofByte (r.read a).1 with
  | stop =>
      dsimp only
      unfold endTable
      dsimp only
      split
      · rw [channel_setChannel, if_pos rfl]
        rfl
      · rw [channel_setChannel, if_pos rfl]
        rfl
  | entry lines repeats =>
      rw [hheader] at hstop
      cases hstop

/-- A channel whose table ends in a line has nothing pending. -/
theorem pending_runLine {m : ChannelMask} (hi : i ∈ m) (hended : i ∉ (r.runLine m).1) :
    ((r.runLine m).2.channel i).pending = false := by
  obtain ⟨running, s, hrunning, -, hlast, hlast'⟩ := r.runLine_turn hi
  rw [hlast'] at hended
  rw [hlast]
  rw [stepLine_eq] at hended ⊢
  dsimp only at hended ⊢
  split
  · rename_i hlines
    rw [if_pos hlines] at hended
    split
    · rename_i hmore
      rw [if_pos hmore] at hended
      exact absurd hrunning hended
    · rw [channel_modifyChannel, if_pos rfl]
  · rename_i hlines
    rw [if_neg hlines] at hended
    exact absurd hrunning hended

/-- A channel whose table ends at the top of a frame has the unit pending that it had before. -/
theorem pending_beginFrame (hi : i ∈ r.beginFrame.controller.ended) :
    (r.beginFrame.channel i).pending = (r.channel i).pending := by
  obtain ⟨henabled, hactive⟩ := mem_ended_beginFrame.mp hi
  obtain ⟨s, -, hchannel, hs, hlast, hlast'⟩ :=
    beginFrame_turn (P := fun _ => True) (fun _ _ _ => trivial) (r := r) trivial i
  have hrun : i ∈ s.controller.active := hs.mpr henabled
  have hkept := ((s.turn_rewound i).trans (turn_fetchHeader _ i)).active
  have hrewound : ((s.rewound i).channel i).pending = (r.channel i).pending := by
    rw [channel_rewound, hchannel]
  rw [hlast'] at hactive
  rw [hlast]
  rw [prepareChannel_of_mem hrun] at hactive ⊢
  dsimp only at hactive ⊢
  have hpending := pending_fetchHeader (r := s.rewound i) (i := i)
  generalize (s.rewound i).fetchHeader i = fetched at hkept hpending hactive ⊢
  split
  · rename_i hmore
    rw [if_pos hmore, hkept] at hactive
    exact absurd hrun hactive
  · rename_i hmore
    exact (hpending (Bool.not_eq_true _ ▸ hmore)).trans hrewound

/-- Any pointer will do where none is asked to be right. -/
theorem reaching_any : Reaching (fun _ : β => True) fun _ _ _ => True :=
  ⟨fun _ _ => trivial, fun _ _ => trivial, fun _ _ => trivial, fun _ _ => trivial⟩

/-- Wherever its table ends, a channel gives up its direct access. -/
theorem cache_runLine {m : ChannelMask} (hi : i ∈ m) (hended : i ∉ (r.runLine m).1) :
    ((r.runLine m).2.channel i).cache = none :=
  (cached_runLine reaching_any fun _ _ => trivial).2 hi hended

theorem cache_beginFrame (hi : i ∈ r.beginFrame.controller.ended) :
    (r.beginFrame.channel i).cache = none := by
  obtain ⟨henabled, hactive⟩ := mem_ended_beginFrame.mp hi
  exact (cached_beginFrame reaching_any fun _ _ => trivial).2 henabled hactive

end Rig

/-! ### Along all work -/

namespace Rig

variable {β : Type}

/-- If channel `i` has ended, it is in a state of which `P` is true. -/
def EndsIn (P : Channel → Prop) (i : ChannelId) (r : Rig β) : Prop :=
  i ∈ r.controller.ended → P (r.channel i)

variable [Buses β]

/-- The rig at a stop, and the one that its request leads to. -/
def seen : Stop β → List (Rig β)
  | (r, none) => [r]
  | (r, some q) => [r, (r.serve q).2]

variable {P : Channel → Prop} {i : ChannelId}

/-- Between two frames, a channel that has ended is left alone, and one that ends does so in a
line. -/
theorem EndsIn.serve {r : Rig β} (h : EndsIn P i r) (hr : r.Consistent) {q : LineRequest}
    (hasks : AsksActive r q)
    (hline : ∀ {m : ChannelMask}, i ∈ m → i ∉ (r.runLine m).1 → P ((r.runLine m).2.channel i))
    (hframe : q = .frame → i ∈ r.beginFrame.controller.ended → P (r.beginFrame.channel i)) :
    EndsIn P i (r.serve q).2 := by
  cases q with
  | enable m =>
      intro hi
      have hended : (r.controller.enable m).ended = r.controller.ended := by
        unfold Controller.enable
        split <;> rfl
      have hchannel : (r.serve (.enable m)).2.channel i = r.channel i :=
        Controller.channel_enable r.controller m i
      rw [hchannel]
      exact h (hended ▸ hi)
  | frame => exact hframe rfl
  | line m =>
      intro hi
      have hrun : m = r.controller.active := hasks
      rcases mem_ended_runLine.mp hi with hended | ⟨hm, hstop⟩
      · have hm : i ∉ m := by
          rw [hrun, show r.controller.active = _ from hr, ChannelMask.mem_sdiff]
          exact fun hactive => hactive.2 hended
        show P ((r.runLine m).2.channel i)
        rw [channel_runLine_of_notMem hm]
        exact h hended
      · exact hline hm hstop

/-- A property of channels that have ended goes along with all work, if it is a matter of the
pending unit and the direct access, lines establish it, and frames do so as far as they are
`G`. -/
theorem along_endsIn {G : Rig β → Prop}
    (hsame : ∀ {c c' : Channel}, c'.pending = c.pending → c'.cache = c.cache → P c → P c')
    (hpower : P .powerOn)
    (hline : ∀ {r : Rig β} {m : ChannelMask}, i ∈ m → i ∉ (r.runLine m).1 →
      P ((r.runLine m).2.channel i))
    (hframe : ∀ {r : Rig β}, G r → i ∈ r.beginFrame.controller.ended →
      P (r.beginFrame.channel i)) :
    Along AsksActive fun (r : Rig β) stops r' =>
      (∀ stop ∈ stops, stop.2 = some .frame → G stop.1) → r.Consistent → EndsIn P i r →
        (∀ s ∈ stops.flatMap seen, EndsIn P i s) ∧ r'.Consistent ∧ EndsIn P i r' where
  done r _ hr h := ⟨List.forall_mem_nil _, hr, h⟩
  trans hfirst hrest hgood hr h := by
    obtain ⟨hxs, hys⟩ := List.forall_mem_append.mp hgood
    obtain ⟨hseen, hr', h'⟩ := hfirst hxs hr h
    obtain ⟨hseen', hlast⟩ := hrest hys hr' h'
    rw [List.flatMap_append]
    exact ⟨List.forall_mem_append.mpr ⟨hseen, hseen'⟩, hlast⟩
  aside haside _ hr h := by
    refine ⟨List.forall_mem_nil _, haside.toSameSets.consistent hr, fun hi => ?_⟩
    exact hsame (haside.pending i) (haside.cache i) (h (haside.ended ▸ hi))
  reset r _ hr _ := by
    refine ⟨List.forall_mem_nil _, hr, fun _ => ?_⟩
    rw [channel, Controller.channel_resetChannels]
    exact hpower
  stop r _ hr h := ⟨List.forall_mem_singleton.mpr h, hr, h⟩
  request hasks hgood hr h := by
    have hserved := h.serve hr hasks hline fun hq =>
      hframe (hgood _ List.mem_cons_self (congrArg some hq))
    refine ⟨?_, consistent_serve hr _, hserved⟩
    exact List.forall_mem_cons.mpr ⟨h, List.forall_mem_singleton.mpr hserved⟩

end Rig

/-- In a run of operations from power-on, a channel that has ended has no direct access, wherever it
is seen.  It has no unit pending, wherever it is seen, if and only if no frame that has ended its
table at once has found a unit pending; for such a frame leaves it pending. -/
theorem ended_still_iff (settings : Settings) (ops : List Operation) (i : ChannelId) :
    let m := Console.powerOn settings
    let seen := (m.path ops).flatMap Rig.seen ++ [(ops.foldl (fun m op => op.run m) m).rig]
    (∀ r ∈ seen, i ∈ r.controller.ended → (r.channel i).cache = none) ∧
      ((∀ r ∈ seen, i ∈ r.controller.ended → (r.channel i).pending = false) ↔
        ∀ stop ∈ m.path ops, Rig.EndsAtOnce i stop → (stop.1.channel i).pending = false) := by
  intro m seen
  have hstart : m.rig.Consistent := consistent_powerOn rfl
  have hnone : ∀ P, Rig.EndsIn P i m.rig := fun P hi => absurd hi (ChannelMask.not_mem_empty i)
  have hall : ∀ P : Channel → Prop,
      (∀ s ∈ (m.path ops).flatMap Rig.seen, Rig.EndsIn P i s) →
      Rig.EndsIn P i (ops.foldl (fun m op => op.run m) m).rig → ∀ r ∈ seen, Rig.EndsIn P i r :=
    fun P hstops hlast =>
      List.forall_mem_append.mpr ⟨hstops, List.forall_mem_singleton.mpr hlast⟩
  refine ⟨?_, ?_, ?_⟩
  · have halong := Rig.along_endsIn (β := Board) (P := fun c => c.cache = none)
      (G := fun _ => True) (i := i) (fun _ hcache h => hcache.trans h) rfl Rig.cache_runLine
      fun _ => Rig.cache_beginFrame
    obtain ⟨hstops, -, hlast⟩ :=
      Console.along_run halong ops m (fun _ _ _ => trivial) hstart (hnone _)
    exact hall _ hstops hlast
  · rintro hstill ⟨s, q⟩ hstop ⟨rfl, hi⟩
    rw [← Rig.pending_beginFrame hi]
    refine hstill s.beginFrame (List.mem_append_left _ ?_) hi
    exact List.mem_flatMap.mpr ⟨_, hstop, List.mem_cons_of_mem _ List.mem_cons_self⟩
  · intro hframes
    have halong := Rig.along_endsIn (β := Board) (P := fun c => c.pending = false)
      (G := fun r => i ∈ r.beginFrame.controller.ended → (r.channel i).pending = false) (i := i)
      (fun hpending _ h => hpending.trans h) rfl Rig.pending_runLine
      fun hgood hi => (Rig.pending_beginFrame hi).trans (hgood hi)
    obtain ⟨hstops, -, hlast⟩ := Console.along_run halong ops m
      (fun stop hstop hframe hi => hframes stop hstop ⟨hframe, hi⟩) hstart (hnone _)
    exact hall _ hstops hlast

/-- The table of channel 0 ends in a line, with all of its units sent. -/
theorem endingTable_still :
    let last := (endingTable.foldl (fun m op => op.run m) (Console.powerOn .standard)).rig
    0 ∈ last.controller.ended ∧ (last.channel 0).cache = none ∧
      (last.channel 0).pending = false := by
  intro last
  have hended : 0 ∈ last.controller.ended := by decide +kernel
  obtain ⟨hcache, hpending⟩ := ended_still_iff .standard endingTable 0
  have hseen := List.mem_append_right
    (((Console.powerOn .standard).path endingTable).flatMap Rig.seen) (List.mem_singleton_self last)
  exact ⟨hended, hcache last hseen hended,
    hpending.mpr (by decide +kernel) last hseen hended⟩

/-- Channel 0 sends a unit on every line of a frame, and the next frame finds the end in place of
its first header. -/
def cutTable : List Operation :=
  [.load 0x7E1000 [0xFF], .load 0x7E1080 [0xFF], .write 0x4300 0x00, .write 0x4301 0x21,
    .write 0x4302 0x00, .write 0x4303 0x10, .write 0x4304 0x7E, .write 0x420C 0x01, .frame,
    .write 0x7E1000 0x00, .lines 1]

/-- The channel has ended with the frame, and still has the unit pending that the last frame has
left. -/
theorem cutTable_left_pending :
    let last := (cutTable.foldl (fun m op => op.run m) (Console.powerOn .standard)).rig
    0 ∈ last.controller.ended ∧ (last.channel 0).cache = none ∧
      (last.channel 0).pending = true := by
  decide +kernel

end DmaController
