import Mathlib.Data.List.Sort
import DmaController.Bench.Recorder
import DmaController.Proofs.LineTransfer.Still
import DmaController.Proofs.LineTransfer.Tariff
import DmaController.Proofs.Work

/-! # A line in two parts

In front of a still memory the turns of a line have nothing to do with each other: what a channel
sends, where it stands afterwards and what that costs is told by the channel as it was and by
whether a channel with a higher number was active (`runLine_still`, `sentBy_still`,
`cycles_runLine_still`).

So a line may be cut in two, as long as the channels of its first part have lower numbers than those
of the second.  The first part then leaves the second its channels, and takes no channel out of the
active ones that one of them looks at; the two parts together do what the line does, and wait for
the processor once more (`line_in_two_parts`). -/

namespace DmaController

/-- The channels of a set that lies below another come first in both together. -/
theorem ChannelMask.toList_union {m₁ m₂ : ChannelMask} (hbelow : ∀ i ∈ m₁, ∀ j ∈ m₂, i < j) :
    (m₁ ∪ m₂).toList = m₁.toList ++ m₂.toList := by
  have hsorted : (m₁.toList ++ m₂.toList).Pairwise (· < ·) := by
    refine List.pairwise_append.mpr ⟨m₁.sorted_toList, m₂.sorted_toList, fun i hi j hj => ?_⟩
    exact hbelow i (mem_toList.mp hi) j (mem_toList.mp hj)
  have hsame : (m₁ ∪ m₂).toList.Perm (m₁.toList ++ m₂.toList) :=
    (List.perm_ext_iff_of_nodup (nodup_toList _) (hsorted.imp Fin.ne_of_lt)).mpr
      fun i => by simp
  exact hsame.eq_of_pairwise (fun i j _ _ hij hji => absurd hij (Fin.lt_asymm hji))
    (sorted_toList _) hsorted

/-- Taking channels out leaves it alone which active ones lie above a channel that none of them
lies above. -/
theorem ChannelMask.anyAbove_sdiff {m k : ChannelMask} {i : ChannelId} (h : ∀ j ∈ k, j ≤ i) :
    (m \ k).anyAbove i = m.anyAbove i := by
  rw [Bool.eq_iff_iff, anyAbove_iff, anyAbove_iff]
  refine exists_congr fun j => and_congr_right fun hij => ?_
  rw [mem_sdiff]
  exact and_iff_left fun hj => absurd (h j hj) (Fin.not_le.mpr hij)

/-- The direct access of a channel plays no part in its passing on to the next line. -/
theorem Channel.nextLine_withCache (c : Channel) (p : Option Pointer) :
    ({ c with cache := p } : Channel).nextLine = { c.nextLine with cache := p } := by
  unfold nextLine afterUnit passUnit
  dsimp only
  split
  · split <;> rfl
  · rfl

/-- Controllers with the same channels have the same row of them. -/
theorem Controller.channels_eq {k l : Controller} (h : ∀ i, k.channel i = l.channel i) :
    k.channels = l.channels := Vector.ext fun n hn => h ⟨n, hn⟩

/-- The register writes of a log. -/
def Logged.writes {β : Type} (t : Logged β) : List (UInt16 × UInt8) :=
  t.calls.filterMap BusCall.written?

namespace Rig

variable {β : Type} [Buses β]

/-- The turns of sending in a line: each channel, with what it has told the buses. -/
def sentBy (r : Rig (Logged β)) (m : ChannelMask) : List (ChannelId × List BusCall) :=
  (r.turns m).map fun turn =>
    (turn.2, (turn.1.sendInTurn turn.2).buses.calls.drop turn.1.buses.calls.length)

omit [Buses β] in
/-- What the turns of a round tell the buses, one after the other. -/
theorem calls_foldl {f : Rig (Logged β) → ChannelId → Rig (Logged β)}
    {told : Rig (Logged β) × ChannelId → List BusCall} (l : List ChannelId) {s : Rig (Logged β)}
    (h : ∀ turn ∈ turnsOf f l s,
      (f turn.1 turn.2).buses.calls = turn.1.buses.calls ++ told turn) :
    (l.foldl f s).buses.calls = s.buses.calls ++ (turnsOf f l s).flatMap told :=
  foldl_run (R := fun (s s' : Rig (Logged β)) calls =>
      s'.buses.calls = s.buses.calls ++ calls)
    (fun _ => (List.append_nil _).symm) (fun h h' => by rw [h', h, List.append_assoc]) l h

/-- Nothing that is noted is done for a header. -/
theorem calls_fetchHeader (r : Rig (Logged β)) (i : ChannelId) :
    (r.fetchHeader i).2.buses.calls = r.buses.calls := by
  rw [fetchHeader_eq]
  dsimp only
  cases Header.ofByte (r.read _).1 with
  | stop =>
      unfold endTable
      dsimp only
      split <;> rfl
  | entry lines repeats =>
      dsimp only
      rw [openEntry_eq]
      unfold fetchPlace
      split <;> rfl

theorem calls_stepLine (running : ChannelMask) (r : Rig (Logged β)) (i : ChannelId) :
    (stepLine running r i).2.buses.calls = r.buses.calls := by
  have hfetched := calls_fetchHeader (r.modifyChannel i Channel.nextLine) i
  rw [stepLine_eq]
  dsimp only
  split
  · split <;> exact hfetched
  · rfl

/-- A line gives no channel back that it was not given. -/
theorem mem_of_mem_runLine {r : Rig β} {m : ChannelMask} {i : ChannelId}
    (hi : i ∈ (r.runLine m).1) : i ∈ m := by
  rw [runLine_fst] at hi
  by_contra hm
  refine foldl_induction (P := fun s : ChannelMask × Rig β => i ∉ s.1) m.toList ?_
    (s := (m, r.sendLine m)) hm hi
  intro s j hj hs
  have hne : i ≠ j := fun e => hm (e ▸ ChannelMask.mem_toList.mp hj)
  rwa [mem_stepLine_of_ne hne]

section

variable {view : MemoryView} {good : β → Prop}

/-- A rig in the course of the first round of a line from `r` on. -/
structure Sending (good : β → Prop) (r s : Rig (Logged β)) : Prop where
  good : good s.buses.inner
  setup : r.SameSetup s
  settings : s.controller.settings = r.controller.settings

/-- A rig in the course of the second round of a line from `r` on. -/
structure Stepping (good : β → Prop) (r s : Rig (Logged β)) : Prop where
  good : good s.buses.inner
  active : s.controller.active = r.controller.active

variable (hs : Still view good) {r : Rig (Logged β)}

include hs

theorem stepping_step {s : Rig (Logged β)} (h : r.Stepping good s) (running : ChannelMask)
    (i : ChannelId) : r.Stepping good (stepLine running s i).2 :=
  ⟨(stepLine_still hs.logged h.good running i).2.2,
    (turn_stepLine running s i).active.trans h.active⟩

variable {m : ChannelMask} (hforward : ∀ i ∈ m, (r.channel i).control.reverse = false)

include hforward

theorem sending_step {s : Rig (Logged β)} (h : r.Sending good s) {i : ChannelId} (hi : i ∈ m) :
    r.Sending good (s.sendInTurn i) := by
  obtain ⟨p, hown⟩ := h.setup i
  have hreverse : (s.channel i).control.reverse = false := by
    rw [hown]
    exact hforward i hi
  exact ⟨(sendInTurn_still hs h.good hreverse).2.1,
    h.setup.trans (recached_sendInTurn s i).sameSetup,
    (works_sendInTurn s i).settings.trans h.settings⟩

variable (hg : good r.buses.inner)

include hg

theorem sending_turns :
    r.Sending good (r.sendLine m) ∧ ∀ turn ∈ r.turns m, r.Sending good turn.1 :=
  foldl_turnsOf (P := r.Sending good) (Q := fun turn => turn.2 ∈ m)
    (fun _ _ h hi => sending_step hs hforward h hi) m.toList
    ⟨hg, fun j => ⟨(r.channel j).cache, rfl⟩, rfl⟩
    fun _ hturn => (channel_of_mem_turns hturn).1

/-- What the channels of a line send. -/
theorem sentBy_still : r.sentBy m = m.toList.map fun i =>
    (i, (r.channel i).turnCalls view r.controller.settings.resetsSpriteAddress) := by
  have horder : (r.turns m).map Prod.snd = m.toList := map_turnsOf _ _ _
  rw [← horder, List.map_map, sentBy]
  refine List.map_congr_left fun turn hturn => ?_
  obtain ⟨hm, hown⟩ := channel_of_mem_turns hturn
  have hsending := (sending_turns hs hforward hg).2 turn hturn
  have hreverse : (turn.1.channel turn.2).control.reverse = false := by
    rw [hown]
    exact hforward _ hm
  obtain ⟨-, -, hcalls⟩ := sendInTurn_still hs hsending.good hreverse
  rw [hcalls, List.drop_left, hown, hsending.settings]
  rfl

theorem channel_sendLine_still {i : ChannelId} (hi : i ∈ m) :
    (r.sendLine m).channel i = (r.channel i).sent view := by
  obtain ⟨s, -, hsending, hsame, hown⟩ := foldl_turn (P := r.Sending good) (f := sendInTurn)
    (v := fun s : Rig (Logged β) => s.channel i) m.nodup_toList (ChannelMask.mem_toList.mpr hi)
    (fun s j hj h => sending_step hs hforward h (ChannelMask.mem_toList.mp hj))
    (fun s j _ hj _ => (recached_sendInTurn s j).channel (Ne.symm hj))
    (s := r.openLine m) ⟨hg, fun j => ⟨(r.channel j).cache, rfl⟩, rfl⟩
  have hsame : s.channel i = r.channel i := hsame
  have hreverse : (s.channel i).control.reverse = false := by
    rw [hsame]
    exact hforward i hi
  rw [sendLine, hown, (sendInTurn_still hs hsending.good hreverse).1, hsame]

theorem stepping_sendLine : r.Stepping good (r.sendLine m) :=
  ⟨(sending_turns hs hforward hg).1.good, (r.round_sendLine m).active⟩

theorem good_runLine : good (r.runLine m).2.buses.inner := by
  have hstepped : r.Stepping good ((r.sendLine m).stepLines m).2 :=
    foldl_induction (P := fun s : ChannelMask × Rig (Logged β) => r.Stepping good s.2) _
      (fun s i _ h => stepping_step hs h s.1 i) (stepping_sendLine hs hforward hg)
  rw [runLine_snd]
  exact hs.setWorkRamTaken _ hstepped.good

/-- What a line leaves of its channels, and which of them go on. -/
theorem runLine_still {i : ChannelId} (hi : i ∈ m) :
    let after := ((r.channel i).sent view).stepped view (r.controller.active.anyAbove i)
    (r.runLine m).2.channel i = after.2 ∧ (i ∈ (r.runLine m).1 ↔ after.1 = true) := by
  obtain ⟨⟨running, s⟩, -, hstepping, hsame, hown⟩ := foldl_turn
    (P := fun s : ChannelMask × Rig (Logged β) => r.Stepping good s.2)
    (f := fun s j => stepLine s.1 s.2 j)
    (v := fun s : ChannelMask × Rig (Logged β) => (s.2.channel i, decide (i ∈ s.1)))
    m.nodup_toList (ChannelMask.mem_toList.mpr hi) (fun s j _ h => stepping_step hs h s.1 j)
    (fun s j _ hj _ => by
      rw [(turn_stepLine s.1 s.2 j).channel (Ne.symm hj),
        decide_eq_decide.mpr (mem_stepLine_of_ne (Ne.symm hj))])
    (s := (m, r.sendLine m)) (stepping_sendLine hs hforward hg)
  obtain ⟨hchannel, hrunning⟩ := Prod.mk.inj hsame
  obtain ⟨hchannel', hrunning'⟩ := Prod.mk.inj hown
  obtain ⟨hlast, hgoes, -⟩ := stepLine_still hs.logged hstepping.good running i
  rw [hstepping.active, hchannel, channel_sendLine_still hs hforward hg hi] at hlast hgoes
  refine ⟨?_, ?_⟩
  · rw [runLine_snd, channel_closeLine]
    exact hchannel'.trans hlast
  · rw [runLine_fst]
    refine (decide_eq_decide.mp hrunning').trans (hgoes.trans ?_)
    exact and_iff_right ((decide_eq_decide.mp hrunning).mpr hi)

/-- What a line with such channels costs. -/
theorem cycles_runLine_still :
    (r.runLine m).2.cycles = r.cycles + (r.controller.settings.syncDelay +
      (m.toList.map fun i => (r.channel i).linePrice (r.controller.active.anyAbove i)
        (view.byte (.of (r.channel i).bank (r.channel i).nextLine.table))).sum) := by
  have hheader : ∀ i, r.lineHeader m i =
      view.byte (.of (r.channel i).bank (r.channel i).nextLine.table) := by
    intro i
    obtain ⟨⟨p, hchannel⟩, -⟩ := r.comesToStep_spec m i
    have hstepping : r.Stepping good (r.comesToStep m i) :=
      comesTo_induction (P := fun s : ChannelMask × Rig (Logged β) => r.Stepping good s.2) m.toList
        (fun s j _ h => stepping_step hs h s.1 j) (s := (m, r.sendLine m))
        (stepping_sendLine hs hforward hg)
    rw [lineHeader, headerAt, channel_modifyChannel, if_pos rfl,
      (Channel.SetAs.nextLine _).bank_eq, hchannel, Channel.nextLine_withCache]
    exact (hs.logged.read _ hstepping.good).1
  rw [cycles_runLine_eq_price]
  simp only [hheader]

/-- What a line tells the buses is what its channels tell them in their turns, and in the end the
word on work RAM that was there before. -/
theorem calls_runLine_still : (r.runLine m).2.buses.calls =
    r.buses.calls ++ (r.sentBy m).flatMap Prod.snd ++
      [.setWorkRamTaken r.controller.activity.workRamTaken] := by
  have hsent : (r.sendLine m).buses.calls = r.buses.calls ++ (r.sentBy m).flatMap Prod.snd := by
    rw [sentBy, List.flatMap_map]
    refine calls_foldl m.toList fun turn hturn => ?_
    have hsending := (sending_turns hs hforward hg).2 turn hturn
    have hreverse : (turn.1.channel turn.2).control.reverse = false := by
      rw [(channel_of_mem_turns hturn).2]
      exact hforward _ (channel_of_mem_turns hturn).1
    rw [(sendInTurn_still hs hsending.good hreverse).2.2, List.drop_left]
  have hstepped : ((r.sendLine m).stepLines m).2.buses.calls = (r.sendLine m).buses.calls :=
    foldl_induction (P := fun s : ChannelMask × Rig (Logged β) =>
      s.2.buses.calls = (r.sendLine m).buses.calls) _
      (fun s i _ h => (calls_stepLine s.1 s.2 i).trans h) rfl
  rw [runLine_snd, buses_closeLine, ← hsent, ← hstepped]
  rfl

end

/-! ### The two parts -/

section

variable {view : MemoryView} {good : β → Prop} {r : Rig (Logged β)} {m₁ m₂ : ChannelMask}
  (hbelow : ∀ i ∈ m₁, ∀ j ∈ m₂, i < j)

include hbelow

/-- The first part leaves the channels of the second as they were. -/
theorem channel_first {i : ChannelId} (hi : i ∈ m₂) :
    (r.runLine m₁).2.channel i = r.channel i :=
  channel_runLine_of_notMem fun h => absurd (hbelow i h i hi) (Fin.lt_irrefl i)

/-- It takes no channel out of the active ones that a channel of the second part looks at. -/
theorem anyAbove_first {i : ChannelId} (hi : i ∈ m₂) :
    (r.runLine m₁).2.controller.active.anyAbove i = r.controller.active.anyAbove i := by
  rw [active_runLine]
  refine ChannelMask.anyAbove_sdiff fun j hj => ?_
  exact Fin.le_of_lt (hbelow j (ChannelMask.mem_sdiff.mp hj).1 i hi)

variable (hforward : ∀ i ∈ m₁ ∪ m₂, (r.channel i).control.reverse = false)

include hforward

theorem forward_parts : (∀ i ∈ m₁, (r.channel i).control.reverse = false) ∧
    ∀ i ∈ m₂, ((r.runLine m₁).2.channel i).control.reverse = false := by
  refine ⟨fun i hi => hforward i (ChannelMask.mem_union.mpr (.inl hi)), fun i hi => ?_⟩
  rw [channel_first hbelow hi]
  exact hforward i (ChannelMask.mem_union.mpr (.inr hi))

variable (hs : Still view good) (hg : good r.buses.inner)

include hs hg

/-- Both parts together leave every channel as the whole line does, and have the same ones go
on. -/
theorem channels_two_parts (i : ChannelId) :
    let joint := r.runLine (m₁ ∪ m₂)
    let first := r.runLine m₁
    let second := first.2.runLine m₂
    second.2.channel i = joint.2.channel i ∧ (i ∈ first.1 ∪ second.1 ↔ i ∈ joint.1) := by
  intro joint first second
  obtain ⟨hforward₁, hforward₂⟩ := forward_parts hbelow hforward
  have hgood := good_runLine hs hforward₁ hg
  rw [ChannelMask.mem_union]
  by_cases h₂ : i ∈ m₂
  · obtain ⟨hlast, hgoes⟩ := runLine_still hs hforward₂ hgood h₂
    obtain ⟨hjoint, hjointGoes⟩ :=
      runLine_still hs hforward hg (ChannelMask.mem_union.mpr (.inr h₂))
    rw [channel_first hbelow h₂, anyAbove_first hbelow h₂] at hlast hgoes
    have hfirst : i ∉ first.1 := fun h =>
      absurd (hbelow i (mem_of_mem_runLine h) i h₂) (Fin.lt_irrefl i)
    exact ⟨hlast.trans hjoint.symm,
      (or_iff_right hfirst).trans (hgoes.trans hjointGoes.symm)⟩
  · have hsecond : i ∉ second.1 := mt mem_of_mem_runLine h₂
    have hkept : second.2.channel i = first.2.channel i := channel_runLine_of_notMem h₂
    rw [or_iff_left hsecond, hkept]
    by_cases h₁ : i ∈ m₁
    · obtain ⟨hfirst, hgoes⟩ := runLine_still hs hforward₁ hg h₁
      obtain ⟨hjoint, hjointGoes⟩ :=
        runLine_still hs hforward hg (ChannelMask.mem_union.mpr (.inl h₁))
      exact ⟨hfirst.trans hjoint.symm, hgoes.trans hjointGoes.symm⟩
    · have hneither : i ∉ m₁ ∪ m₂ := by
        rw [ChannelMask.mem_union]
        exact not_or.mpr ⟨h₁, h₂⟩
      have hfirst : first.2.channel i = r.channel i := channel_runLine_of_notMem h₁
      have hjoint : joint.2.channel i = r.channel i := channel_runLine_of_notMem hneither
      exact ⟨hfirst.trans hjoint.symm,
        iff_of_false (mt mem_of_mem_runLine h₁) (mt mem_of_mem_runLine hneither)⟩

/-- Both parts together make the same channels inactive, and end the same tables. -/
theorem sets_two_parts :
    let joint := r.runLine (m₁ ∪ m₂)
    let second := (r.runLine m₁).2.runLine m₂
    second.2.controller.active = joint.2.controller.active ∧
      second.2.controller.ended = joint.2.controller.ended := by
  intro joint second
  have hdisjoint : ∀ i, i ∈ m₁ → i ∉ m₂ := fun i h₁ h₂ =>
    absurd (hbelow i h₁ i h₂) (Fin.lt_irrefl i)
  have hjoint : ∀ i, i ∈ joint.1 ↔ i ∈ (r.runLine m₁).1 ∨ i ∈ second.1 := fun i =>
    (channels_two_parts hbelow hforward hs hg i).2.symm.trans ChannelMask.mem_union
  have hfirst : ∀ i, i ∈ (r.runLine m₁).1 → i ∈ m₁ := fun i => mem_of_mem_runLine
  have hsecond : ∀ i, i ∈ second.1 → i ∈ m₂ := fun i => mem_of_mem_runLine
  constructor <;> refine ChannelMask.ext_mem fun i => ?_
  · rw [active_runLine, active_runLine, active_runLine]
    simp only [ChannelMask.mem_sdiff, ChannelMask.mem_union]
    grind
  · rw [mem_ended_runLine, mem_ended_runLine, mem_ended_runLine]
    simp only [ChannelMask.mem_union]
    grind

/-- The second part sends what its channels send in the whole line. -/
theorem sentBy_two_parts :
    r.sentBy (m₁ ∪ m₂) = r.sentBy m₁ ++ (r.runLine m₁).2.sentBy m₂ := by
  obtain ⟨hforward₁, hforward₂⟩ := forward_parts hbelow hforward
  have hgood := good_runLine hs hforward₁ hg
  rw [sentBy_still hs hforward hg, sentBy_still hs hforward₁ hg, sentBy_still hs hforward₂ hgood,
    ChannelMask.toList_union hbelow, List.map_append, (works_runLine r m₁).settings]
  refine congrArg _ (List.map_congr_left fun i hi => ?_)
  rw [channel_first hbelow (ChannelMask.mem_toList.mp hi)]

/-- Both parts together write to the registers what the whole line writes. -/
theorem writes_two_parts :
    ((r.runLine m₁).2.runLine m₂).2.buses.writes = (r.runLine (m₁ ∪ m₂)).2.buses.writes := by
  obtain ⟨hforward₁, hforward₂⟩ := forward_parts hbelow hforward
  have hgood := good_runLine hs hforward₁ hg
  rw [Logged.writes, Logged.writes, calls_runLine_still hs hforward hg,
    calls_runLine_still hs hforward₂ hgood, calls_runLine_still hs hforward₁ hg,
    sentBy_two_parts hbelow hforward hs hg]
  simp only [List.filterMap_append, List.flatMap_append, List.append_assoc, List.filterMap_cons,
    List.filterMap_nil, BusCall.written?, List.nil_append]

/-- Both parts together wait for the processor once more than the whole line. -/
theorem cycles_two_parts :
    ((r.runLine m₁).2.runLine m₂).2.cycles =
      (r.runLine (m₁ ∪ m₂)).2.cycles + r.controller.settings.syncDelay := by
  obtain ⟨hforward₁, hforward₂⟩ := forward_parts hbelow hforward
  have hgood := good_runLine hs hforward₁ hg
  have hprices : (m₂.toList.map fun i =>
      ((r.runLine m₁).2.channel i).linePrice
        ((r.runLine m₁).2.controller.active.anyAbove i)
        (view.byte (.of ((r.runLine m₁).2.channel i).bank
          ((r.runLine m₁).2.channel i).nextLine.table))) =
      m₂.toList.map fun i => (r.channel i).linePrice (r.controller.active.anyAbove i)
        (view.byte (.of (r.channel i).bank (r.channel i).nextLine.table)) :=
    List.map_congr_left fun i hi => by
      have hi := ChannelMask.mem_toList.mp hi
      rw [channel_first hbelow hi, anyAbove_first hbelow hi]
  rw [cycles_runLine_still hs hforward₂ hgood, hprices, cycles_runLine_still hs hforward₁ hg,
    cycles_runLine_still hs hforward hg, (works_runLine r m₁).settings,
    ChannelMask.toList_union hbelow, List.map_append, List.sum_append]
  omega

end

/-- A line may be run in two parts, first some channels and then others with higher numbers: that
leaves the same controller but for the word to a general transfer, sends the same, with the same
channels going on, and waits for the processor once more. -/
theorem line_in_two_parts {view : MemoryView} {good : β → Prop} (hs : Still view good)
    {r : Rig (Logged β)} (hg : good r.buses.inner) {m₁ m₂ : ChannelMask}
    (hbelow : ∀ i ∈ m₁, ∀ j ∈ m₂, i < j)
    (hforward : ∀ i ∈ m₁ ∪ m₂, (r.channel i).control.reverse = false) :
    let joint := r.runLine (m₁ ∪ m₂)
    let first := r.runLine m₁
    let second := first.2.runLine m₂
    second.2.controller = { joint.2.controller with
        activity := { joint.2.controller.activity with
          ranInside := second.2.controller.activity.ranInside } } ∧
      r.sentBy (m₁ ∪ m₂) = r.sentBy m₁ ++ first.2.sentBy m₂ ∧
      second.2.buses.writes = joint.2.buses.writes ∧
      first.1 ∪ second.1 = joint.1 ∧
      second.2.cycles = joint.2.cycles + r.controller.settings.syncDelay := by
  intro joint first second
  have hchannels : second.2.controller.channels = joint.2.controller.channels :=
    Controller.channels_eq fun i => (channels_two_parts hbelow hforward hs hg i).1
  obtain ⟨hactive, hended⟩ := sets_two_parts hbelow hforward hs hg
  have hsettings : second.2.controller.settings = joint.2.controller.settings :=
    ((works_runLine _ _).settings.trans (works_runLine _ _).settings).trans
      (works_runLine _ _).settings.symm
  have hdecoder : second.2.controller.decoder = joint.2.controller.decoder :=
    ((decoder_runLine _ _).trans (decoder_runLine _ _)).trans (decoder_runLine _ _).symm
  have henabled : second.2.controller.enabled = joint.2.controller.enabled := by
    rw [enabled_runLine, enabled_runLine, enabled_runLine]
  have hactivity : second.2.controller.activity = { joint.2.controller.activity with
      ranInside := second.2.controller.activity.ranInside } := by
    rw [activity_runLine, activity_runLine, activity_runLine]
  refine ⟨?_, sentBy_two_parts hbelow hforward hs hg, writes_two_parts hbelow hforward hs hg,
    ChannelMask.ext_mem fun i => (channels_two_parts hbelow hforward hs hg i).2,
    cycles_two_parts hbelow hforward hs hg⟩
  rw [← hactivity]
  show second.2.controller = ⟨joint.2.controller.channels, joint.2.controller.settings,
    joint.2.controller.decoder, second.2.controller.activity, joint.2.controller.enabled,
    joint.2.controller.active, joint.2.controller.ended⟩
  rw [← hchannels, ← hsettings, ← hdecoder, ← henabled, ← hactive, ← hended]

end Rig

/-! ### Two channels of a recorder -/

namespace Recorder

attribute [local instance] plain

/-- What there is to be seen of the memory of a recorder. -/
def view (b : Recorder) : MemoryView where
  byte a := b.memory.get a.cell
  word a :=
    let low := b.memory.get (Address.cell (a % 0x1000000))
    let high := b.memory.get (Address.cell ((a + 1) % 0x1000000))
    high.toUInt16 * 0x100 + low.toUInt16
  pointer a := if b.isSlow a then none else some ⟨UInt64.ofNat a.cell⟩
  direct p := b.memory.get (p.index.toNat % 0x1000000)

/-- The memory of a recorder stands still, and so do its slow ranges. -/
theorem still (b₀ : Recorder) :
    Still b₀.view fun b : Recorder => b.memory = b₀.memory ∧ b.slow = b₀.slow where
  read a h := ⟨congrArg (·.get a.cell) h.1, h⟩
  readWord {b} a h := by
    have hword : (Buses.readWord a b).1 = b.view.word a := rfl
    rw [hword, view, view, h.1]
    exact ⟨rfl, h⟩
  bytePointer {b} a h := by
    have hslow : b.isSlow a = b₀.isSlow a := by
      unfold isSlow
      rw [h.2]
    refine ⟨?_, h⟩
    show (if b.isSlow a then none else some _) = if b₀.isSlow a then none else some _
    rw [hslow]
  peek p h := ⟨congrArg (·.get (p.index.toNat % 0x1000000)) h.1, h⟩
  writeRegister _ _ h := h
  setOpenBus _ h := h
  setWorkRamTaken _ h := h
  setSpriteAddress _ h := h

/-- Channel 0 comes to the end of its indirect table, and channel 1 is active above it. -/
def twoChannels : Rig (Logged Recorder) where
  controller :=
    let ending : Channel :=
      { Channel.powerOn with control := .ofByte 0x41, lines := 1, pending := true }
    let running : Channel := { Channel.powerOn with control := .ofByte 0x01, pending := true }
    let ended := (Controller.powerOn .standard).setChannel (channelNumber 0) ending
    { ended.setChannel (channelNumber 1) running with active := ⟨3⟩ }
  buses := .start (.blank false)
  cycles := 0

/-- Whether both channels run together or one after the other, the table of channel 0 is ended at
the price it has below an active channel. -/
theorem twoChannels_in_parts :
    let joint := twoChannels.runLine (⟨1⟩ ∪ ⟨2⟩)
    let first := twoChannels.runLine ⟨1⟩
    let second := first.2.runLine ⟨2⟩
    joint.1 = ⟨2⟩ ∧ joint.2.cycles = 82 ∧
      second.2.controller = { joint.2.controller with
        activity := { joint.2.controller.activity with
          ranInside := second.2.controller.activity.ranInside } } ∧
      twoChannels.sentBy (⟨1⟩ ∪ ⟨2⟩) = twoChannels.sentBy ⟨1⟩ ++ first.2.sentBy ⟨2⟩ ∧
      second.2.buses.writes = joint.2.buses.writes ∧
      first.1 ∪ second.1 = joint.1 ∧
      second.2.cycles = joint.2.cycles + 18 := by
  have hbelow : ∀ i ∈ (⟨1⟩ : ChannelMask), ∀ j ∈ (⟨2⟩ : ChannelMask), i < j := by decide
  obtain ⟨hcontroller, hsent, hwrites, hrunning, hcycles⟩ :=
    Rig.line_in_two_parts (still (blank false)) (r := twoChannels) ⟨rfl, rfl⟩ hbelow (by decide)
  have hsync : twoChannels.controller.settings.syncDelay = 18 := rfl
  rw [hsync] at hcycles
  exact ⟨by decide +kernel, by decide +kernel, hcontroller, hsent, hwrites, hrunning, hcycles⟩

end Recorder

end DmaController
