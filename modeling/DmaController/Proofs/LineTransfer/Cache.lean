import DmaController.Proofs.LineTransfer.Turns

/-! # Direct access from line to line

A channel keeps direct access to its next unit from one line to the next.  What makes a pointer
the right one for a place in memory is left open here: `Reaching good R` asks of a relation `R`
that the pointers given out satisfy it and that it moves along inside a block.  `Cached R c` says
that the channel `c` has the right pointer for its next unit, if it has any.

In the first round of a line the pointer moves ahead of the registers by a unit, in the second the
registers follow (`cached_sendUnit`, `cached_stepLine`).  A new entry asks for a new pointer and
the end of a table gives up the old one. -/

namespace DmaController

variable {β : Type} [Buses β]

/-- `R p bank o` makes `p` the right pointer for `bank:o`, as far as the buses are `good`. -/
structure Reaching (good : β → Prop) (R : Pointer → UInt8 → UInt16 → Prop) : Prop where
  opened : ∀ {b : β} {bank : UInt8} {o : UInt16} {p : Pointer},
    good b → (Buses.bytePointer (.of bank o) b).1 = some p → R p bank o
  moved : ∀ {bank : UInt8} {o : UInt16} {p : Pointer} {n : Nat},
    positionInBlock o + n < blockSize → R p bank o →
      R (p.offset (UInt64.ofNat n)) bank (o + UInt16.ofNat n)
  good_read : ∀ {b : β} (a : Address), good b → good (Buses.read a b).2
  good_readWord : ∀ {b : β} (a : Address), good b → good (Buses.readWord a b).2

namespace Channel

/-- If the channel has direct access, it is that of its next unit. -/
def Cached (R : Pointer → UInt8 → UInt16 → Prop) (c : Channel) : Prop :=
  ∀ p, c.cache = some p → R p c.lineBank c.lineOffset

theorem cached_of_none {R : Pointer → UInt8 → UInt16 → Prop} {c : Channel}
    (h : c.cache = none) : c.Cached R := by
  intro p hp
  rw [h] at hp
  cases hp

@[simp] theorem control_passUnit (c : Channel) : c.passUnit.control = c.control := by
  unfold passUnit
  dsimp only
  split <;> rfl

@[simp] theorem cache_passUnit (c : Channel) : c.passUnit.cache = c.cache := by
  unfold passUnit
  dsimp only
  split <;> rfl

@[simp] theorem lineBank_passUnit (c : Channel) : c.passUnit.lineBank = c.lineBank := by
  unfold passUnit
  dsimp only
  split <;> rfl

@[simp] theorem lineOffset_passUnit (c : Channel) :
    c.passUnit.lineOffset = c.lineOffset + UInt16.ofNat c.mode.size := by
  unfold passUnit lineOffset
  cases h : c.control.indirect <;> simp [h]

theorem afterUnit_of_pending {c : Channel} (h : c.pending = true) : c.afterUnit = c.passUnit := by
  rw [afterUnit, if_pos h]

theorem afterUnit_of_not_pending {c : Channel} (h : c.pending = false) : c.afterUnit = c := by
  rw [afterUnit, if_neg (by rw [h]; exact Bool.false_ne_true)]

@[simp] theorem cache_afterUnit (c : Channel) : c.afterUnit.cache = c.cache := by
  unfold afterUnit
  split
  · exact c.cache_passUnit
  · rfl

/-- A pointer that is ahead by a unit is right when the unit lies behind. -/
theorem cached_afterUnit_some {R : Pointer → UInt8 → UInt16 → Prop} {c : Channel} {p : Pointer}
    (hp : c.pending = true)
    (h : R p c.lineBank (c.lineOffset + UInt16.ofNat c.mode.size)) :
    ({ c with cache := some p } : Channel).afterUnit.Cached R := by
  intro q hq
  rw [cache_afterUnit] at hq
  cases hq
  have e : ({ c with cache := some p } : Channel).afterUnit =
      { c.passUnit with cache := some p } := by
    rw [afterUnit_of_pending (by exact hp), passUnit, passUnit]
    dsimp only
    split <;> rfl
  rw [e]
  show R p c.passUnit.lineBank c.passUnit.lineOffset
  rw [lineBank_passUnit, lineOffset_passUnit]
  exact h

/-- Whether a unit is pending and how many lines are left has nothing to do with its place. -/
theorem cached_nextLine {R : Pointer → UInt8 → UInt16 → Prop} {c : Channel}
    (h : c.afterUnit.Cached R) : c.nextLine.Cached R := h

end Channel

namespace Rig

variable {good : β → Prop} {R : Pointer → UInt8 → UInt16 → Prop} (hR : Reaching good R)

include hR

theorem cached_refreshCache {r : Rig β} {i : ChannelId} (hg : good r.buses)
    (h : (r.channel i).Cached R) : ((r.refreshCache i).channel i).Cached R := by
  cases hc : (r.channel i).cache with
  | some p =>
      rw [refreshCache_of_some hc]
      exact h
  | none =>
      rw [refreshCache_of_none hc, channel_setChannel, if_pos rfl]
      intro p hp
      exact hR.opened hg hp

/-- Behind its turn of sending, a channel has the right pointer for the unit after the one it
sent. -/
theorem cached_sendUnit {r : Rig β} {i : ChannelId} (hg : good r.buses)
    (h : (r.channel i).Cached R) : ((r.sendUnit i).channel i).afterUnit.Cached R := by
  have hc := cached_refreshCache hR hg h
  rw [sendUnit_eq]
  generalize r.refreshCache i = r at hc ⊢
  generalize hrc : r.channel i = c at hc ⊢
  have hs : (r.pointSprites c).channel i = c := (r.keeps_pointSprites c).channel i |>.trans hrc
  dsimp only
  cases hp : c.pending with
  | false =>
      rw [Bool.not_false, if_pos rfl, hrc, Channel.afterUnit_of_not_pending hp]
      exact hc
  | true =>
      rw [Bool.not_true, if_neg Bool.false_ne_true]
      -- Without direct access there is nothing to be wrong.
      have hnone : (((r.pointSprites c).setCache i none).channel i).afterUnit.Cached R := by
        apply Channel.cached_of_none
        rw [Channel.cache_afterUnit, setCache, channel_modifyChannel, if_pos rfl]
      by_cases hr : c.control.reverse = true
      · rw [if_pos hr, (keeps_collectUnit c _).channel]
        exact hnone
      rw [if_neg hr]
      by_cases hb : c.unitReachesBlockEnd = true
      · rw [if_pos hb, (keeps_sendStraddling c _).channel]
        exact hnone
      rw [if_neg hb]
      cases hcache : c.cache with
      | none =>
          dsimp only
          rw [(keeps_sendMapped c _).channel, channel_setWorkRamTaken, hs]
          apply Channel.cached_of_none
          rw [Channel.cache_afterUnit, hcache]
      | some p =>
          dsimp only
          rw [setCache, channel_modifyChannel, if_pos rfl, (keeps_sendDirect c p _).channel,
            channel_setWorkRamTaken, hs]
          have hinside : positionInBlock c.lineOffset + c.mode.size < blockSize := by
            simpa [Channel.unitReachesBlockEnd] using hb
          exact Channel.cached_afterUnit_some hp (hR.moved hinside (hc p hcache))

omit hR in
theorem cache_endTable (r : Rig β) (i : ChannelId) (above : Bool) :
    ((r.endTable i above).channel i).cache = none := by
  unfold endTable
  dsimp only
  split
  · rw [channel_setChannel, if_pos rfl]
  · rw [channel_setChannel, if_pos rfl]

theorem good_fetchPlace {r : Rig β} (c : Channel) (hg : good r.buses) :
    good (r.fetchPlace c).2.buses := by
  unfold fetchPlace
  split
  · exact hR.good_readWord _ hg
  · exact hg

theorem cached_openEntry {r : Rig β} {i : ChannelId} (lines : UInt8) (repeats : Bool)
    (hg : good r.buses) : ((r.openEntry i lines repeats).channel i).Cached R := by
  rw [openEntry_eq]
  have hg' := good_fetchPlace hR ((r.channel i).takeHeader lines repeats) hg
  generalize r.fetchPlace _ = placed at hg' ⊢
  dsimp only
  rw [channel_setChannel, if_pos rfl]
  intro p hp
  exact hR.opened hg' hp

/-- A header leaves the right pointer for its data behind, and none if the table ends. -/
theorem cached_fetchHeader {r : Rig β} {i : ChannelId} (hg : good r.buses) :
    ((r.fetchHeader i).2.channel i).Cached R ∧
      ((r.fetchHeader i).1 = false → ((r.fetchHeader i).2.channel i).cache = none) := by
  rw [fetchHeader_eq]
  dsimp only
  generalize Address.of _ _ = a
  have hg' : good ((r.read a).2.spend slowAccess).buses := hR.good_read a hg
  cases Header.ofByte (r.read a).1 with
  | stop =>
      have hnone := cache_endTable ((r.read a).2.spend slowAccess) i
        (r.controller.active.anyAbove i)
      exact ⟨Channel.cached_of_none hnone, fun _ => hnone⟩
  | entry lines repeats =>
      exact ⟨cached_openEntry hR lines repeats hg', fun h => by cases h⟩

/-- In the second round the registers follow the pointer, and a channel that leaves the running
ones gives its pointer up. -/
theorem cached_stepLine {m : ChannelMask} {r : Rig β} {i : ChannelId} (hg : good r.buses)
    (h : (r.channel i).afterUnit.Cached R) :
    ((stepLine m r i).2.channel i).Cached R ∧
      (i ∈ m → i ∉ (stepLine m r i).1 → ((stepLine m r i).2.channel i).cache = none) := by
  rw [stepLine_eq]
  obtain ⟨hfetched, hended⟩ :=
    cached_fetchHeader hR (r := r.modifyChannel i Channel.nextLine) (i := i) hg
  dsimp only
  split
  · split
    · exact ⟨hfetched, fun hi hn => absurd hi hn⟩
    · rename_i hmore
      have hnone := hended (Bool.not_eq_true _ ▸ hmore)
      have hlast : ((((r.modifyChannel i Channel.nextLine).fetchHeader i).2.markEnded
          i).modifyChannel i fun c => { c with pending := false }).channel i =
          { ((r.modifyChannel i Channel.nextLine).fetchHeader i).2.channel i with
            pending := false } := by
        rw [channel_modifyChannel, if_pos rfl]
        rfl
      rw [hlast]
      exact ⟨Channel.cached_of_none hnone, fun _ _ => hnone⟩
  · rw [channel_spend, channel_modifyChannel, if_pos rfl]
    exact ⟨Channel.cached_nextLine h, fun hi hn => absurd hi hn⟩

end Rig

/-! ### Lines and frames -/

namespace Rig

variable {R : Pointer → UInt8 → UInt16 → Prop} (hR : Reaching (fun _ : β => True) R)

include hR

/-- A line leaves the right pointers behind, and none where a table ends. -/
theorem cached_runLine {r : Rig β} {m : ChannelMask} {i : ChannelId} (h : (r.channel i).Cached R) :
    ((r.runLine m).2.channel i).Cached R ∧
      (i ∈ m → i ∉ (r.runLine m).1 → ((r.runLine m).2.channel i).cache = none) := by
  by_cases hm : i ∈ m
  · have hl := ChannelMask.mem_toList.mpr hm
    obtain ⟨s, -, -, hsame, hown⟩ := foldl_turn (P := fun _ => True) (f := sendInTurn)
      (v := fun s : Rig β => s.channel i) m.nodup_toList hl (fun _ _ _ _ => trivial)
      (fun s j _ hj _ => (recached_sendInTurn s j).channel (Ne.symm hj)) (s := r.openLine m) trivial
    have hs : (s.channel i).Cached R := by
      rw [show s.channel i = r.channel i from hsame]
      exact h
    have hsent : ((r.sendLine m).channel i).afterUnit.Cached R := by
      rw [sendLine, hown]
      exact cached_sendUnit hR (r := (s.setWorkRamTaken false).setCurrent i) trivial hs
    obtain ⟨running, s', hi, hchannel, hlast, hlast'⟩ := r.runLine_turn hm
    rw [← hchannel] at hsent
    obtain ⟨hcached, hended⟩ := cached_stepLine hR (m := running) trivial hsent
    rw [hlast, hlast']
    exact ⟨hcached, fun _ hn => hended hi hn⟩
  · rw [channel_runLine_of_notMem hm]
    exact ⟨h, fun hi => absurd hi hm⟩

/-- A frame gives every enabled channel the right pointer, or none where its table is empty. -/
theorem cached_beginFrame {r : Rig β} {i : ChannelId} (h : (r.channel i).Cached R) :
    (r.beginFrame.channel i).Cached R ∧
      (i ∈ r.controller.enabled → i ∉ r.beginFrame.controller.active →
        (r.beginFrame.channel i).cache = none) := by
  obtain ⟨s, -, hchannel, hactive, hlast, hlast'⟩ :=
    beginFrame_turn (P := fun _ => True) (fun _ _ _ => trivial) (r := r) trivial i
  rw [hlast, hlast', ← hactive]
  by_cases hi : i ∈ s.controller.active
  · have hkept := ((s.turn_rewound i).trans (turn_fetchHeader _ i)).active
    obtain ⟨hfetched, hended⟩ := cached_fetchHeader hR (r := s.rewound i) (i := i) trivial
    rw [prepareChannel_of_mem hi]
    dsimp only
    generalize (s.rewound i).fetchHeader i = fetched at hkept hfetched hended ⊢
    split
    · rw [hkept]
      exact ⟨hfetched, fun _ hn => absurd hi hn⟩
    · rename_i hmore
      exact ⟨hfetched, fun _ _ => hended (Bool.not_eq_true _ ▸ hmore)⟩
  · rw [prepareChannel_of_notMem hi, channel_modifyChannel, if_pos rfl, hchannel]
    exact ⟨h, fun hi' => absurd hi' hi⟩

end Rig

end DmaController
