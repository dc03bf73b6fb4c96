import Mathlib.Algebra.BigOperators.Group.List.Basic
import Mathlib.Data.List.TakeWhile
import DmaController.Host
import DmaController.Proofs.LineTransfer.Costs
import DmaController.Proofs.LineTransfer.Setup

/-! # The price of a line

What a line takes comes down to a tariff: so much for each byte of a unit, so much for a line on
which no header is fetched, and so much for a header (`Channel.linePrice`, `Channel.fetchPrice`).
Besides the channel itself and the header, one bit counts, whether a channel with a higher number
is active: it makes the end of an indirect table dearer.  The way the bytes of a unit take does not
count, nor does what the channels before it in the line have done.

The lists of `Costs` are summed here, turn by turn.  A channel comes to its turn as it was
(`channel_comesTo_sendInTurn`, `channel_comesTo_stepLine`).  In a line the set of active channels
stays until the last turn is over; in a frame it shrinks, but of the channels with a higher number
than the one whose turn it is, none has left it yet (`anyAbove_comesTo_prepareChannel`). -/

namespace DmaController

/-- The price of fetching a header, where `above` says whether a channel with a higher number is
active. -/
def Channel.fetchPrice (c : Channel) (above : Bool) (header : UInt8) : Int :=
  if header ≠ 0 then 8 + if c.control.indirect then 16 else 0
  else 8 + if c.control.indirect then (if above then 16 else 8) else 0

/-- The price of a line, on which `header` is fetched if the entry is used up. -/
def Channel.linePrice (c : Channel) (above : Bool) (header : UInt8) : Int :=
  (if c.pending then 8 * (c.mode.size : Int) else 0) +
    if c.lines - 1 ≠ 0 then 8 else c.fetchPrice above header

theorem Channel.lines_nextLine (c : Channel) : c.nextLine.lines = c.lines - 1 := by
  unfold nextLine afterUnit passUnit
  dsimp only
  split
  · split <;> rfl
  · rfl

theorem Header.ofByte_eq_stop (v : UInt8) : Header.ofByte v = .stop ↔ v = 0 := by
  unfold Header.ofByte
  refine ⟨fun h => ?_, fun h => if_pos h⟩
  split at h
  · assumption
  · split at h <;> cases h

namespace Rig

/-! ### Coming to a turn -/

/-- The state in which channel `i` comes to its turn in a round. -/
def comesTo {σ : Type} (f : σ → ChannelId → σ) (l : List ChannelId) (s : σ) (i : ChannelId) : σ :=
  (l.takeWhile fun j => decide (j ≠ i)).foldl f s

theorem comesTo_self {σ : Type} (f : σ → ChannelId → σ) (i : ChannelId) (l : List ChannelId)
    (s : σ) : comesTo f (i :: l) s i = s := by
  simp [comesTo]

theorem comesTo_of_ne {σ : Type} (f : σ → ChannelId → σ) {i j : ChannelId} (hj : j ≠ i)
    (l : List ChannelId) (s : σ) : comesTo f (j :: l) s i = comesTo f l (f s j) i := by
  simp [comesTo, hj]

/-- The turns of a round, by the channel whose turn it is. -/
theorem turnsOf_eq_map {σ : Type} (f : σ → ChannelId → σ) {l : List ChannelId} (hl : l.Nodup)
    (s : σ) : turnsOf f l s = l.map fun i => (comesTo f l s i, i) := by
  induction l generalizing s with
  | nil => rfl
  | cons j l ih =>
      obtain ⟨hj, hl⟩ := List.nodup_cons.mp hl
      rw [turnsOf, List.map_cons, comesTo_self, ih hl]
      refine congrArg _ (List.map_congr_left fun i hi => ?_)
      have hji : j ≠ i := fun e => hj (e ▸ hi)
      rw [comesTo_of_ne f hji]

/-- What the turns of the other channels keep, is as it was when channel `i` comes to its own. -/
theorem comesTo_induction {σ : Type} {P : σ → Prop} {f : σ → ChannelId → σ} {i : ChannelId}
    (l : List ChannelId) (hstep : ∀ s j, j ≠ i → P s → P (f s j)) {s : σ} (h : P s) :
    P (comesTo f l s i) := by
  refine foldl_induction _ (fun s j hj hs => hstep s j ?_ hs) h
  simpa using List.mem_takeWhile_imp hj

/-- In an ascending round only channels with lower numbers come before channel `i`. -/
theorem comesTo_induction_lt {σ : Type} {P : σ → Prop} {f : σ → ChannelId → σ} {i : ChannelId}
    {l : List ChannelId} (hl : l.Pairwise (· < ·)) (hi : i ∈ l)
    (hstep : ∀ s j, j < i → P s → P (f s j)) {s : σ} (h : P s) : P (comesTo f l s i) := by
  induction l generalizing s with
  | nil => cases hi
  | cons j l ih =>
      obtain ⟨hj, hl⟩ := List.pairwise_cons.mp hl
      by_cases hji : j = i
      · subst hji
        rw [comesTo_self]
        exact h
      · have hil : i ∈ l := (List.mem_cons.mp hi).resolve_left (Ne.symm hji)
        rw [comesTo_of_ne f hji]
        exact ih hl hil (hstep s j (hj i hil) h)

/-- A round costs what its turns cost. -/
theorem sum_roundCosts {σ : Type} (f : σ → ChannelId → σ) (costs : σ → ChannelId → List Int)
    {l : List ChannelId} (hl : l.Nodup) (s : σ) :
    (roundCosts f costs l s).sum = (l.map fun i => (costs (comesTo f l s i) i).sum).sum := by
  rw [roundCosts, turnsOf_eq_map f hl, List.flatMap_map, List.flatMap_def, List.sum_flatten,
    List.map_map]
  rfl

variable {β : Type} [Buses β]

/-! ### Headers -/

/-- The header that channel `i` fetches where it stands. -/
def headerAt (r : Rig β) (i : ChannelId) : UInt8 :=
  (Buses.read (.of (r.channel i).bank (r.channel i).table) r.buses).1

theorem sum_headerCosts (r : Rig β) (i : ChannelId) :
    (r.headerCosts i).sum =
      (r.channel i).fetchPrice (r.controller.active.anyAbove i) (r.headerAt i) := by
  have hstop := Header.ofByte_eq_stop (r.headerAt i)
  have hread : (r.read (.of (r.channel i).bank (r.channel i).table)).1 = r.headerAt i := rfl
  unfold headerCosts Channel.fetchPrice
  dsimp only
  rw [hread]
  cases hheader : Header.ofByte (r.headerAt i) with
  | stop =>
      rw [if_neg (not_not_intro (hstop.mp hheader)), List.sum_cons]
      dsimp only
      split
      · split <;> rfl
      · rfl
  | entry lines repeats =>
      have hgoes : r.headerAt i ≠ 0 := fun h => by
        rw [hstop.mpr h] at hheader
        cases hheader
      rw [if_pos hgoes, List.sum_cons]
      dsimp only
      split <;> rfl

/-! ### Lines -/

/-- The rig on which channel `i` has its turn of stepping on in a line. -/
def comesToStep (r : Rig β) (m : ChannelMask) (i : ChannelId) : Rig β :=
  (comesTo (fun s j => stepLine s.1 s.2 j) m.toList (m, r.sendLine m) i).2

/-- The header that channel `i` fetches in a line if its entry is used up. -/
def lineHeader (r : Rig β) (m : ChannelMask) (i : ChannelId) : UInt8 :=
  ((r.comesToStep m i).modifyChannel i Channel.nextLine).headerAt i

theorem channel_comesTo_sendInTurn (l : List ChannelId) (r : Rig β) (i : ChannelId) :
    (comesTo sendInTurn l r i).channel i = r.channel i :=
  comesTo_induction (P := fun s : Rig β => s.channel i = r.channel i) l
    (fun s j hj h => ((recached_sendInTurn s j).channel (Ne.symm hj)).trans h) rfl

/-- To its turn of stepping on a channel comes as it was but for its direct access, and none has
left the active ones. -/
theorem comesToStep_spec (r : Rig β) (m : ChannelMask) (i : ChannelId) :
    (∃ p, (r.comesToStep m i).channel i = { r.channel i with cache := p }) ∧
      (r.comesToStep m i).controller.active = r.controller.active := by
  have hsent : (r.openLine m).SameSetup (r.sendLine m) :=
    foldl_induction _ (fun s j _ h => h.trans (recached_sendInTurn s j).sameSetup) (.refl _)
  obtain ⟨p, hsent⟩ := hsent i
  obtain ⟨hchannel, hactive⟩ := comesTo_induction
    (P := fun s : ChannelMask × Rig β => s.2.channel i = (r.sendLine m).channel i ∧
      s.2.controller.active = r.controller.active)
    m.toList
    (fun s j hj h => ⟨((turn_stepLine s.1 s.2 j).channel (Ne.symm hj)).trans h.1,
      (turn_stepLine s.1 s.2 j).active.trans h.2⟩)
    (s := (m, r.sendLine m)) ⟨rfl, (r.round_sendLine m).active⟩
  exact ⟨⟨p, hchannel.trans hsent⟩, hactive⟩

theorem sum_unitCosts (c : Channel) :
    (unitCosts c).sum = if c.pending then 8 * (c.mode.size : Int) else 0 := by
  unfold unitCosts
  split
  · rw [List.sum_replicate_int, slowAccess, Int.mul_comm]
  · rfl

/-- What a channel's two turns in a line cost is its price. -/
theorem sum_turnCosts (r : Rig β) (m : ChannelMask) (i : ChannelId) :
    (unitCosts ((comesTo sendInTurn m.toList (r.openLine m) i).channel i)).sum +
        ((r.comesToStep m i).stepCosts i).sum =
      (r.channel i).linePrice (r.controller.active.anyAbove i) (r.lineHeader m i) := by
  obtain ⟨⟨p, hchannel⟩, hactive⟩ := r.comesToStep_spec m i
  have hopened : (r.openLine m).channel i = r.channel i := rfl
  have hlines : ((r.comesToStep m i).channel i).nextLine.lines = (r.channel i).lines - 1 := by
    rw [Channel.lines_nextLine, hchannel]
  rw [channel_comesTo_sendInTurn, hopened, sum_unitCosts, Channel.linePrice, stepCosts, hlines]
  refine congrArg _ ?_
  by_cases hused : (r.channel i).lines - 1 = 0
  · have hindirect : ((r.comesToStep m i).channel i).nextLine.control = (r.channel i).control := by
      rw [(Channel.SetAs.nextLine _).control_eq, hchannel]
    rw [if_pos hused, if_neg (not_not_intro hused), sum_headerCosts, channel_modifyChannel,
      if_pos rfl, Channel.fetchPrice, Channel.fetchPrice, hindirect, ← hactive]
    rfl
  · rw [if_neg hused, if_pos hused]
    rfl

theorem cycles_runLine_eq_price (r : Rig β) (m : ChannelMask) :
    (r.runLine m).2.cycles = r.cycles + (r.controller.settings.syncDelay +
      (m.toList.map fun i =>
        (r.channel i).linePrice (r.controller.active.anyAbove i) (r.lineHeader m i)).sum) := by
  have hturns : (m.toList.map fun i =>
      (r.channel i).linePrice (r.controller.active.anyAbove i) (r.lineHeader m i)) =
      m.toList.map fun i =>
        (unitCosts ((comesTo sendInTurn m.toList (r.openLine m) i).channel i)).sum +
          ((r.comesToStep m i).stepCosts i).sum :=
    List.map_congr_left fun i _ => (r.sum_turnCosts m i).symm
  rw [cycles_runLine, lineCosts, List.sum_cons, List.sum_append,
    sum_roundCosts _ _ m.nodup_toList, sum_roundCosts _ _ m.nodup_toList, ← List.sum_map_add]
  rw [hturns]
  rfl

/-! ### Frames -/

/-- The rig on which channel `i` has its turn in a frame. -/
def comesToPrepare (r : Rig β) (i : ChannelId) : Rig β :=
  comesTo prepareChannel (List.finRange 8) r.openFrame i

/-- The header that channel `i` fetches in a frame if it is enabled. -/
def frameHeader (r : Rig β) (i : ChannelId) : UInt8 :=
  ((r.comesToPrepare i).rewound i).headerAt i

/-- To its turn in a frame a channel comes as it was, and of the enabled channels from its own
number on none has left the active ones. -/
theorem comesToPrepare_spec (r : Rig β) (i : ChannelId) :
    (r.comesToPrepare i).channel i = r.channel i ∧
      ∀ j, i ≤ j → (j ∈ (r.comesToPrepare i).controller.active ↔ j ∈ r.controller.enabled) := by
  have hascending : (List.finRange 8).Pairwise (· < ·) := by decide
  refine comesTo_induction_lt
    (P := fun s : Rig β => s.channel i = r.channel i ∧
      ∀ j, i ≤ j → (j ∈ s.controller.active ↔ j ∈ r.controller.enabled))
    hascending (List.mem_finRange i) ?_ ?_
  · intro s k hk h
    have hi := prepareChannel_of_ne (r := s) (Ne.symm (Fin.ne_of_lt hk))
    refine ⟨hi.1.trans h.1, fun j hij => ?_⟩
    have hkj : k < j := Fin.lt_of_lt_of_le hk hij
    rw [(prepareChannel_of_ne (Ne.symm (Fin.ne_of_lt hkj))).2]
    exact h.2 j hij
  · rw [channel, controller_openFrame]
    exact ⟨rfl, fun _ _ => Iff.rfl⟩

theorem anyAbove_comesToPrepare (r : Rig β) (i : ChannelId) :
    (r.comesToPrepare i).controller.active.anyAbove i = r.controller.enabled.anyAbove i := by
  rw [Bool.eq_iff_iff, ChannelMask.anyAbove_iff, ChannelMask.anyAbove_iff]
  refine exists_congr fun j => and_congr_right fun hij => ?_
  exact (r.comesToPrepare_spec i).2 j (Fin.le_of_lt hij)

theorem sum_prepareCosts (r : Rig β) (i : ChannelId) :
    ((r.comesToPrepare i).prepareCosts i).sum =
      if i ∈ r.controller.enabled then
        (r.channel i).fetchPrice (r.controller.enabled.anyAbove i) (r.frameHeader i)
      else 0 := by
  obtain ⟨hchannel, hactive⟩ := r.comesToPrepare_spec i
  have habove := r.anyAbove_comesToPrepare i
  unfold prepareCosts
  rw [if_congr (hactive i (Fin.le_refl i)) rfl rfl]
  split
  · rw [sum_headerCosts, channel_rewound, hchannel, ← habove]
    rfl
  · rfl

/-- In a frame only the enabled channels cost something. -/
theorem sum_enabled (m : ChannelMask) (price : ChannelId → Int) :
    ((List.finRange 8).map fun i => if i ∈ m then price i else 0).sum =
      (m.toList.map price).sum := by
  unfold ChannelMask.toList
  generalize List.finRange 8 = l
  induction l with
  | nil => rfl
  | cons i l ih =>
      rw [List.map_cons, List.sum_cons, ih]
      by_cases hi : i ∈ m
      · rw [if_pos hi, List.filter_cons_of_pos (ChannelMask.mem_def.mp hi), List.map_cons,
          List.sum_cons]
      · rw [if_neg hi, List.filter_cons_of_neg (mt ChannelMask.mem_def.mpr hi), Int.zero_add]

theorem cycles_beginFrame_eq_price (r : Rig β) :
    r.beginFrame.cycles = r.cycles +
      (if r.controller.enabled = ∅ then 0 else
        r.controller.settings.syncDelay + (r.controller.enabled.toList.map fun i =>
          (r.channel i).fetchPrice (r.controller.enabled.anyAbove i) (r.frameHeader i)).sum) := by
  have hprepared : (roundCosts prepareChannel prepareCosts (List.finRange 8) r.openFrame).sum =
      (r.controller.enabled.toList.map fun i =>
        (r.channel i).fetchPrice (r.controller.enabled.anyAbove i) (r.frameHeader i)).sum := by
    rw [sum_roundCosts _ _ (List.nodup_finRange 8), ← sum_enabled]
    exact congrArg List.sum (List.map_congr_left fun i _ => r.sum_prepareCosts i)
  rw [cycles_beginFrame, frameCosts, List.sum_append, hprepared]
  split
  · rename_i hnone
    rw [hnone]
    rfl
  · rw [List.sum_singleton]

end Rig

/-- A line takes the time of the synchronisation with the processor and of its channels by the
tariff, and a frame that of the enabled channels' first headers, if any is enabled.  Both leave the
schedule alone: no event comes in between. -/
theorem Host.line_and_frame_by_tariff {κ β : Type} [Buses β] (h : Host κ β) (m : ChannelMask) :
    let k := h.rig.controller
    let line := h.modifyRig fun r => (r.runLine m).2
    let frame := h.modifyRig Rig.beginFrame
    line.rig.cycles = h.rig.cycles + (k.settings.syncDelay +
        (m.toList.map fun i =>
          (k.channel i).linePrice (k.active.anyAbove i) (h.rig.lineHeader m i)).sum) ∧
      frame.rig.cycles = h.rig.cycles +
        (if k.enabled = ∅ then 0 else k.settings.syncDelay + (k.enabled.toList.map fun i =>
          (k.channel i).fetchPrice (k.enabled.anyAbove i) (h.rig.frameHeader i)).sum) ∧
      line.schedule = h.schedule ∧ frame.schedule = h.schedule :=
  ⟨h.rig.cycles_runLine_eq_price m, h.rig.cycles_beginFrame_eq_price, rfl, rfl⟩

end DmaController
