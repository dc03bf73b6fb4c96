import Mathlib.Algebra.Ring.Int.Defs
import DmaController.Proofs.LineTransfer.Turns

/-! # The time that lines and frames take

Lines and frames count their cycles as they go by.  The lists of this module have the amounts they
count, in order: `lineCosts` those of a line, `frameCosts` those of a frame.  Together they are what
the count has grown by in the end (`cycles_runLine`, `cycles_beginFrame`), and `countsFrom` goes
through the values it has meanwhile.

Nothing that is counted here is negative, so the count is highest in the end.  For each of eight
channels a line takes the time of four bytes and of a header at most, and a frame that of a header,
besides the synchronisation with the processor (`lineCosts_atMost`, `frameCosts_atMost`). -/

namespace DmaController

/-! ### Counting -/

/-- The values of a count that begins at `c` and has these amounts added to it. -/
def countsFrom (c : Int) : List Int → List Int
  | [] => [c]
  | n :: costs => c :: countsFrom (c + n) costs

theorem self_mem_countsFrom (c : Int) (costs : List Int) : c ∈ countsFrom c costs := by
  cases costs <;> exact List.mem_cons_self

theorem mem_countsFrom_append {c x : Int} {costs costs' : List Int} :
    x ∈ countsFrom c (costs ++ costs') ↔
      x ∈ countsFrom c costs ∨ x ∈ countsFrom (c + costs.sum) costs' := by
  induction costs generalizing c with
  | nil =>
      simp only [List.nil_append, countsFrom, List.mem_singleton, List.sum_nil, Int.add_zero]
      exact ⟨.inr, fun h => h.elim (fun h => h ▸ self_mem_countsFrom c costs') id⟩
  | cons n costs ih =>
      rw [List.cons_append, countsFrom, countsFrom, List.mem_cons, List.mem_cons, ih,
        List.sum_cons, Int.add_assoc, or_assoc]

/-- Costs that are not negative and come to `n` at most. -/
structure CostAtMost (n : Int) (costs : List Int) : Prop where
  nonneg : ∀ k ∈ costs, 0 ≤ k
  sum_le : costs.sum ≤ n

namespace CostAtMost

variable {n n' : Int} {costs costs' : List Int}

theorem nil (hn : 0 ≤ n) : CostAtMost n [] := ⟨List.forall_mem_nil _, hn⟩

theorem one {k : Int} (hk : 0 ≤ k) (hn : k ≤ n) : CostAtMost n [k] := by
  refine ⟨fun x hx => List.mem_singleton.mp hx ▸ hk, ?_⟩
  simpa using hn

theorem append (h : CostAtMost n costs) (h' : CostAtMost n' costs') :
    CostAtMost (n + n') (costs ++ costs') := by
  refine ⟨List.forall_mem_append.mpr ⟨h.nonneg, h'.nonneg⟩, ?_⟩
  have hsum := h.sum_le
  have hsum' := h'.sum_le
  rw [List.sum_append]
  omega

theorem mono (h : CostAtMost n costs) (hn : n ≤ n') : CostAtMost n' costs :=
  ⟨h.nonneg, Int.le_trans h.sum_le hn⟩

theorem sum_nonneg (h : CostAtMost n costs) : 0 ≤ costs.sum := by
  induction costs generalizing n with
  | nil => exact Int.le_refl 0
  | cons k costs ih =>
      have hk := h.nonneg k List.mem_cons_self
      have hrest : CostAtMost costs.sum costs :=
        ⟨fun x hx => h.nonneg x (List.mem_cons_of_mem k hx), Int.le_refl _⟩
      have hsum := ih hrest
      rw [List.sum_cons]
      omega

/-- A count that such costs are added to lies between its first and its last value. -/
theorem counts (h : CostAtMost n costs) {c x : Int} (hx : x ∈ countsFrom c costs) :
    c ≤ x ∧ x ≤ c + costs.sum := by
  induction costs generalizing c n with
  | nil =>
      rw [List.mem_singleton.mp hx, List.sum_nil]
      omega
  | cons k costs ih =>
      have hk := h.nonneg k List.mem_cons_self
      have hrest : CostAtMost costs.sum costs :=
        ⟨fun x hx => h.nonneg x (List.mem_cons_of_mem k hx), Int.le_refl _⟩
      rw [List.sum_cons]
      rcases List.mem_cons.mp hx with rfl | hx
      · have hlast := hrest.sum_nonneg
        omega
      · have hlater := ih hrest hx
        omega

end CostAtMost

theorem ChannelMask.length_toList_le (m : ChannelMask) : m.toList.length ≤ 8 :=
  List.length_filter_le _ _

namespace Rig

variable {β : Type} [Buses β]

/-! ### Rounds -/

/-- The costs of a round, turn by turn. -/
def roundCosts {σ : Type} (f : σ → ChannelId → σ) (costs : σ → ChannelId → List Int)
    (l : List ChannelId) (s : σ) : List Int :=
  (turnsOf f l s).flatMap fun turn => costs turn.1 turn.2

omit [Buses β] in
theorem cycles_round {σ : Type} {f : σ → ChannelId → σ} {costs : σ → ChannelId → List Int}
    (rig : σ → Rig β)
    (hturn : ∀ s i, (rig (f s i)).cycles = (rig s).cycles + (costs s i).sum)
    (l : List ChannelId) (s : σ) :
    (rig (l.foldl f s)).cycles = (rig s).cycles + (roundCosts f costs l s).sum := by
  induction l generalizing s with
  | nil => simp [roundCosts, turnsOf]
  | cons i l ih =>
      have hrest := ih (f s i)
      rw [roundCosts] at hrest ⊢
      rw [List.foldl_cons, hrest, hturn, turnsOf, List.flatMap_cons, List.sum_append,
        Int.add_assoc]

theorem roundCosts_atMost {σ : Type} {f : σ → ChannelId → σ} {costs : σ → ChannelId → List Int}
    {n : Int} (hn : 0 ≤ n) (hturn : ∀ s i, CostAtMost n (costs s i)) {l : List ChannelId}
    (hl : l.length ≤ 8) (s : σ) : CostAtMost (8 * n) (roundCosts f costs l s) := by
  have hround : CostAtMost (l.length * n) (roundCosts f costs l s) := by
    clear hl
    induction l generalizing s with
    | nil => exact .nil (by simp)
    | cons i l ih =>
        have hlength : ((i :: l).length : Int) * n = n + l.length * n := by
          rw [List.length_cons, Int.natCast_add, Int.add_mul]
          omega
        rw [hlength, roundCosts, turnsOf, List.flatMap_cons]
        exact (hturn s i).append (ih (f s i))
  exact hround.mono (Int.mul_le_mul_of_nonneg_right (by omega) hn)

/-! ### Units -/

/-- The costs of a channel's unit, byte by byte. -/
def unitCosts (c : Channel) : List Int :=
  if c.pending then List.replicate c.mode.size slowAccess else []

theorem unitCosts_atMost (c : Channel) : CostAtMost 32 (unitCosts c) := by
  have hsize := c.mode.size_le
  unfold unitCosts
  split
  · refine ⟨fun k hk => ?_, ?_⟩
    · rw [(List.mem_replicate.mp hk).2]
      decide
    · rw [List.sum_replicate_int, slowAccess]
      omega
  · exact .nil (by decide)

omit [Buses β] in
theorem cycles_forUnit {mode : UnitMode} {step : Nat → UInt8 → Rig β → Rig β}
    (hstep : ∀ k o s, (step k o s).cycles = s.cycles + slowAccess) (r : Rig β) :
    (r.forUnit mode step).cycles = r.cycles + (List.replicate mode.size slowAccess).sum := by
  have hlength : mode.size = mode.offsets.zipIdx.length := List.length_zipIdx.symm
  unfold forUnit
  rw [hlength]
  generalize mode.offsets.zipIdx = l
  induction l generalizing r with
  | nil => simp
  | cons p l ih =>
      rw [List.foldl_cons, ih, hstep, List.length_cons, List.replicate_succ, List.sum_cons,
        Int.add_assoc]

theorem cycles_sendUnit (r : Rig β) (i : ChannelId) :
    (r.sendUnit i).cycles = r.cycles + (unitCosts (r.channel i)).sum := by
  obtain ⟨p, hown⟩ := (r.recached_refreshCache i).own
  have hcosts : unitCosts ((r.refreshCache i).channel i) = unitCosts (r.channel i) := by
    rw [hown]
    rfl
  have hrefreshed : (r.refreshCache i).cycles = r.cycles := by
    unfold refreshCache
    dsimp only
    split <;> rfl
  rw [sendUnit_eq, ← hcosts]
  generalize r.refreshCache i = s at hrefreshed ⊢
  generalize s.channel i = c
  have hpointed : (s.pointSprites c).cycles = r.cycles := by
    rw [← hrefreshed]
    unfold pointSprites
    split <;> rfl
  unfold unitCosts
  dsimp only
  cases hpending : c.pending with
  | false => simp [hrefreshed]
  | true =>
      rw [Bool.not_true, if_neg Bool.false_ne_true, if_pos rfl, ← hpointed]
      split
      · exact cycles_forUnit (fun _ _ _ => rfl) _
      split
      · exact cycles_forUnit (fun _ _ _ => rfl) _
      split
      · exact cycles_forUnit (fun _ _ _ => rfl) _
      · refine (cycles_forUnit (fun k o s => ?_) _).trans rfl
        dsimp only
        split <;> rfl

theorem cycles_sendInTurn (r : Rig β) (i : ChannelId) :
    (r.sendInTurn i).cycles = r.cycles + (unitCosts (r.channel i)).sum :=
  cycles_sendUnit ((r.setWorkRamTaken false).setCurrent i) i

/-! ### Headers -/

/-- The costs of fetching a header. -/
def headerCosts (r : Rig β) (i : ChannelId) : List Int :=
  let c := r.channel i
  slowAccess ::
    match Header.ofByte (r.read (.of c.bank c.table)).1 with
    | .stop =>
      if c.control.indirect then
        [if r.controller.active.anyAbove i then 2 * slowAccess else slowAccess]
      else []
    | .entry _ _ => if c.control.indirect then [2 * slowAccess] else []

theorem headerCosts_atMost (r : Rig β) (i : ChannelId) : CostAtMost 24 (r.headerCosts i) := by
  have hfirst : CostAtMost 8 [slowAccess] := .one (by decide) (by decide)
  refine hfirst.append (?_ : CostAtMost 16 _)
  split
  · split
    · split <;> exact .one (by decide) (by decide)
    · exact .nil (by decide)
  · split
    · exact .one (by decide) (by decide)
    · exact .nil (by decide)

theorem cycles_endTable (r : Rig β) (i : ChannelId) (above : Bool) :
    (r.endTable i above).cycles = r.cycles +
      (if (r.channel i).control.indirect then
        [if above then 2 * slowAccess else slowAccess] else []).sum := by
  unfold endTable
  dsimp only
  split
  · simp only [List.sum_cons, List.sum_nil, Int.add_zero]
    rfl
  · simp only [List.sum_nil, Int.add_zero]
    rfl

theorem cycles_openEntry (r : Rig β) (i : ChannelId) (lines : UInt8) (repeats : Bool) :
    (r.openEntry i lines repeats).cycles = r.cycles +
      (if (r.channel i).control.indirect then [2 * slowAccess] else []).sum := by
  rw [openEntry_eq]
  have hplaced : (r.fetchPlace ((r.channel i).takeHeader lines repeats)).2.cycles = r.cycles +
      (if (r.channel i).control.indirect then [2 * slowAccess] else []).sum := by
    unfold fetchPlace Channel.takeHeader
    dsimp only
    split
    · simp only [List.sum_cons, List.sum_nil, Int.add_zero]
      rfl
    · simp only [List.sum_nil, Int.add_zero]
  exact hplaced

theorem cycles_fetchHeader (r : Rig β) (i : ChannelId) :
    (r.fetchHeader i).2.cycles = r.cycles + (r.headerCosts i).sum := by
  rw [fetchHeader_eq, headerCosts, List.sum_cons, ← Int.add_assoc]
  dsimp only
  generalize Address.of _ _ = a
  cases Header.ofByte (r.read a).1 with
  | stop => exact cycles_endTable ((r.read a).2.spend slowAccess) i _
  | entry lines repeats => exact cycles_openEntry ((r.read a).2.spend slowAccess) i lines repeats

/-- The costs of stepping a channel on. -/
def stepCosts (r : Rig β) (i : ChannelId) : List Int :=
  if (r.channel i).nextLine.lines = 0 then
    (r.modifyChannel i Channel.nextLine).headerCosts i
  else [slowAccess]

theorem stepCosts_atMost (r : Rig β) (i : ChannelId) : CostAtMost 24 (r.stepCosts i) := by
  unfold stepCosts
  split
  · exact headerCosts_atMost _ i
  · exact .one (by decide) (by decide)

theorem cycles_stepLine (running : ChannelMask) (r : Rig β) (i : ChannelId) :
    (stepLine running r i).2.cycles = r.cycles + (r.stepCosts i).sum := by
  have hfetched := cycles_fetchHeader (r.modifyChannel i Channel.nextLine) i
  rw [stepLine_eq, stepCosts]
  dsimp only
  split
  · split <;> exact hfetched
  · simp only [List.sum_cons, List.sum_nil, Int.add_zero]
    rfl

/-- The costs of preparing a channel for a frame. -/
def prepareCosts (r : Rig β) (i : ChannelId) : List Int :=
  if i ∈ r.controller.active then (r.rewound i).headerCosts i else []

theorem prepareCosts_atMost (r : Rig β) (i : ChannelId) : CostAtMost 24 (r.prepareCosts i) := by
  unfold prepareCosts
  split
  · exact headerCosts_atMost _ i
  · exact .nil (by decide)

theorem cycles_prepareChannel (r : Rig β) (i : ChannelId) :
    (r.prepareChannel i).cycles = r.cycles + (r.prepareCosts i).sum := by
  have hfetched := cycles_fetchHeader (r.rewound i) i
  unfold prepareCosts
  split
  · rename_i hi
    rw [prepareChannel_of_mem hi]
    dsimp only
    split <;> exact hfetched
  · rename_i hi
    rw [prepareChannel_of_notMem hi, List.sum_nil, Int.add_zero]
    rfl

/-! ### Lines and frames -/

/-- The costs of a line. -/
def lineCosts (r : Rig β) (m : ChannelMask) : List Int :=
  r.controller.settings.syncDelay ::
    (roundCosts sendInTurn (fun s i => unitCosts (s.channel i)) m.toList (r.openLine m) ++
      roundCosts (fun s i => stepLine s.1 s.2 i) (fun s i => s.2.stepCosts i) m.toList
        (m, r.sendLine m))

theorem cycles_closeLine (before : Activity) (m running : ChannelMask) (r : Rig β) :
    (r.closeLine before m running).cycles = r.cycles := rfl

theorem cycles_runLine (r : Rig β) (m : ChannelMask) :
    (r.runLine m).2.cycles = r.cycles + (r.lineCosts m).sum := by
  have hsent := cycles_round (fun s => s) cycles_sendInTurn m.toList (r.openLine m)
  have hstepped := cycles_round (fun s : ChannelMask × Rig β => s.2)
    (fun s i => cycles_stepLine s.1 s.2 i) m.toList (m, r.sendLine m)
  have hopened : (r.openLine m).cycles = r.cycles + r.controller.settings.syncDelay := rfl
  rw [runLine_snd, cycles_closeLine, lineCosts, List.sum_cons, List.sum_append, ← Int.add_assoc,
    ← Int.add_assoc, ← hopened, ← hsent]
  exact hstepped

theorem lineCosts_atMost {r : Rig β} {m : ChannelMask}
    (hsync : r.controller.settings.syncDelay = Settings.standard.syncDelay) :
    CostAtMost 466 (r.lineCosts m) := by
  have hopened : CostAtMost 18 [r.controller.settings.syncDelay] := by
    rw [hsync]
    exact .one (by decide) (by decide)
  have hsent := roundCosts_atMost (f := sendInTurn) (n := 32) (by decide)
    (fun s i => unitCosts_atMost (s.channel i)) m.length_toList_le (r.openLine m)
  have hstepped := roundCosts_atMost (f := fun s i => stepLine s.1 s.2 i) (n := 24) (by decide)
    (fun s i => stepCosts_atMost s.2 i) m.length_toList_le (m, r.sendLine m)
  exact hopened.append (hsent.append hstepped)

/-- The costs of beginning a frame. -/
def frameCosts (r : Rig β) : List Int :=
  (if r.controller.enabled = ∅ then [] else [r.controller.settings.syncDelay]) ++
    roundCosts prepareChannel prepareCosts (List.finRange 8) r.openFrame

theorem cycles_beginFrame (r : Rig β) :
    r.beginFrame.cycles = r.cycles + r.frameCosts.sum := by
  have hprepared := cycles_round (fun s => s) cycles_prepareChannel (List.finRange 8) r.openFrame
  have hopened : r.openFrame.cycles = r.cycles +
      (if r.controller.enabled = ∅ then [] else [r.controller.settings.syncDelay]).sum := by
    unfold openFrame
    dsimp only
    split
    · simp only [List.sum_nil, Int.add_zero]
      rfl
    · simp only [List.sum_cons, List.sum_nil, Int.add_zero]
      rfl
  rw [beginFrame_eq, frameCosts, List.sum_append, ← Int.add_assoc, ← hopened]
  exact hprepared

theorem frameCosts_atMost {r : Rig β}
    (hsync : r.controller.settings.syncDelay = Settings.standard.syncDelay) :
    CostAtMost 210 r.frameCosts := by
  have hprepared := roundCosts_atMost (f := prepareChannel) (n := 24) (by decide)
    (prepareCosts_atMost (β := β)) (l := List.finRange 8) (by decide) r.openFrame
  refine CostAtMost.append (n := 18) ?_ hprepared
  split
  · exact .nil (by decide)
  · rw [hsync]
    exact .one (by decide) (by decide)

end Rig

end DmaController
