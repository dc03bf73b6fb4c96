import DmaController.Proofs.Work

/-! # Line transfers on a level

What a line transfer to the registers does depends on its channel, on the three sets of channels,
and on what it reads; the record of activity, the count of cycles and the channels that have no turn
play no part.  So two rigs are *level* if they agree on the former, whatever the latter are
(`Rig.Level`); the channels of a set `D` are left out of the comparison.

Their buses may differ too, as long as they *concur*: `Same told b c` says that the buses in the
states `b` and `c` answer alike, and if `told`, that both have heard the same about work RAM.  They
need not have done so in general, but every turn of sending begins with a word to both.  The second
buses are expected to answer only as long as nothing was asked of them that is not `Clear`; what was
asked once, stays asked (`Rig.Works.clear`).

Lines that are given channels outside of `D`, all of which send, and frames that have no channel of
`D` enabled, then leave level rigs level (`Rig.level_runLine`, `Rig.level_beginFrame`). -/

namespace DmaController

section

variable {β γ : Type} [Buses β] [Buses γ]

/-- The two kinds of buses answer line transfers to the registers alike. -/
structure Concur (Same : Bool → β → γ → Prop) (Clear : γ → Prop) : Prop where
  read : ∀ {told b c} (a : Address), Same told b c → Clear (Buses.read a c).2 →
    (Buses.read a c).1 = (Buses.read a b).1 ∧ Same told (Buses.read a b).2 (Buses.read a c).2
  readWord : ∀ {told b c} (a : Address), Same told b c → Clear (Buses.readWord a c).2 →
    (Buses.readWord a c).1 = (Buses.readWord a b).1 ∧
      Same told (Buses.readWord a b).2 (Buses.readWord a c).2
  bytePointer : ∀ {told b c} (a : Address), Same told b c →
    (Buses.bytePointer a c).1 = (Buses.bytePointer a b).1 ∧
      Same told (Buses.bytePointer a b).2 (Buses.bytePointer a c).2
  peek : ∀ {told b c} (p : Pointer), Same told b c →
    (Buses.peek p c).1 = (Buses.peek p b).1 ∧ Same told (Buses.peek p b).2 (Buses.peek p c).2
  writeRegister : ∀ {b c} (a : UInt16) (v : UInt8), Same true b c →
    Same true (Buses.writeRegister a v b) (Buses.writeRegister a v c)
  setOpenBus : ∀ {told b c} (v : UInt8), Same told b c →
    Same told (Buses.setOpenBus v b) (Buses.setOpenBus v c)
  setSpriteAddress : ∀ {told b c} (a : UInt16), Same told b c →
    Same told (Buses.setSpriteAddress a b) (Buses.setSpriteAddress a c)
  /-- Both are told of work RAM, the same or not. -/
  say : ∀ {told b c} (taken taken' : Bool), Same told b c →
    Same (taken == taken') (Buses.setWorkRamTaken taken b) (Buses.setWorkRamTaken taken' c)
  forget : ∀ {told b c}, Same told b c → Same false b c
  clear_of_step : ∀ {c c'}, Buses.Step c c' → Clear c' → Clear c
  clear_of_say : ∀ {c} (taken : Bool), Clear (Buses.setWorkRamTaken taken c) → Clear c

end

/-! ### Level controllers -/

namespace Controller

/-- The controllers agree in what line transfers go by, but for the channels of `D`. -/
structure Level (D : ChannelMask) (k l : Controller) : Prop where
  settings : l.settings = k.settings
  enabled : l.enabled = k.enabled
  active : l.active = k.active
  ended : l.ended = k.ended
  channel : ∀ {i}, i ∉ D → l.channel i = k.channel i

namespace Level

variable {D : ChannelMask} {k l j : Controller}

theorem refl (D : ChannelMask) (k : Controller) : Level D k k := ⟨rfl, rfl, rfl, rfl, fun _ => rfl⟩

theorem symm (h : Level D k l) : Level D l k :=
  ⟨h.settings.symm, h.enabled.symm, h.active.symm, h.ended.symm, fun hi => (h.channel hi).symm⟩

theorem trans (h : Level D k l) (h' : Level D l j) : Level D k j :=
  ⟨h'.settings.trans h.settings, h'.enabled.trans h.enabled, h'.active.trans h.active,
    h'.ended.trans h.ended, fun hi => (h'.channel hi).trans (h.channel hi)⟩

/-- The more channels are left out, the less there is to agree on. -/
theorem mono {E : ChannelMask} (h : Level D k l) (hE : ∀ {i}, i ∈ D → i ∈ E) : Level E k l :=
  ⟨h.settings, h.enabled, h.active, h.ended, fun hi => h.channel fun hD => hi (hE hD)⟩

theorem setChannel (h : Level D k l) (i : ChannelId) (c : Channel) :
    Level D (k.setChannel i c) (l.setChannel i c) := by
  refine ⟨h.settings, h.enabled, h.active, h.ended, ?_⟩
  intro j hj
  rw [channel_setChannel, channel_setChannel]
  split
  · rfl
  · exact h.channel hj

/-- A channel that is left out may be changed on one side alone. -/
theorem setChannel_right (h : Level D k l) {i : ChannelId} (hi : i ∈ D) (c : Channel) :
    Level D k (l.setChannel i c) := by
  refine ⟨h.settings, h.enabled, h.active, h.ended, ?_⟩
  intro j hj
  have hne : i ≠ j := by
    rintro rfl
    exact hj hi
  rw [channel_setChannel, if_neg hne]
  exact h.channel hj

end Level

end Controller

namespace Rig

/-- The rigs have level controllers, on buses that are the `Same`. -/
structure Level {β γ : Type} (Same : β → γ → Prop) (D : ChannelMask) (r : Rig β) (s : Rig γ) :
    Prop where
  controller : r.controller.Level D s.controller
  buses : Same r.buses s.buses

section

variable {β γ : Type} {Same : β → γ → Prop} {D : ChannelMask} {r : Rig β} {s : Rig γ}
  {i : ChannelId}

namespace Level

theorem channel (h : Level Same D r s) (hi : i ∉ D) : s.channel i = r.channel i :=
  h.controller.channel hi

theorem withBuses (h : Level Same D r s) {Same' : β → γ → Prop} {b : β} {c : γ} (hs : Same' b c) :
    Level Same' D { r with buses := b } { s with buses := c } := ⟨h.controller, hs⟩

theorem withController (h : Level Same D r s) {k l : Controller} (hk : k.Level D l) :
    Level Same D { r with controller := k } { s with controller := l } := ⟨hk, h.buses⟩

theorem spend (h : Level Same D r s) (n n' : Int) : Level Same D (r.spend n) (s.spend n') :=
  ⟨h.controller, h.buses⟩

/-- The record of activity is not compared. -/
theorem modifyActivity (h : Level Same D r s) (f f' : Activity → Activity) :
    Level Same D (r.modifyActivity f) (s.modifyActivity f') :=
  h.withController
    ⟨h.controller.settings, h.controller.enabled, h.controller.active, h.controller.ended,
      h.controller.channel⟩

theorem setCurrent (h : Level Same D r s) (i : ChannelId) :
    Level Same D (r.setCurrent i) (s.setCurrent i) := h.modifyActivity _ _

theorem setChannel (h : Level Same D r s) (i : ChannelId) {c d : Channel} (hc : d = c) :
    Level Same D (r.setChannel i c) (s.setChannel i d) :=
  h.withController (hc ▸ h.controller.setChannel i d)

theorem modifyChannel (h : Level Same D r s) (hi : i ∉ D) (f : Channel → Channel) :
    Level Same D (r.modifyChannel i f) (s.modifyChannel i f) :=
  h.setChannel i (congrArg f (h.channel hi))

theorem setCache (h : Level Same D r s) (hi : i ∉ D) (p : Option Pointer) :
    Level Same D (r.setCache i p) (s.setCache i p) := h.modifyChannel hi _

theorem markEnded (h : Level Same D r s) (i : ChannelId) :
    Level Same D (r.markEnded i) (s.markEnded i) :=
  h.withController
    ⟨h.controller.settings, h.controller.enabled, h.controller.active,
      congrArg (·.insert i) h.controller.ended, h.controller.channel⟩

theorem setActive (h : Level Same D r s) {m m' : ChannelMask} (hm : m' = m) :
    Level Same D (r.setActive m) (s.setActive m') :=
  h.withController
    ⟨h.controller.settings, h.controller.enabled, hm, h.controller.ended, h.controller.channel⟩

end Level

/-- Two rounds side by side: what is `P` stays so as long as the second goes on in `C`, out of which
no turn leads back into it. -/
theorem foldl_level {α σ τ : Type} {P : σ → τ → Prop} {C : τ → Prop} {f : σ → α → σ}
    {g : τ → α → τ} (hback : ∀ {t a}, C (g t a) → C t) (l : List α)
    (hstep : ∀ {s t}, ∀ a ∈ l, P s t → C (g t a) → P (f s a) (g t a)) {s : σ} {t : τ} (h : P s t)
    (hC : C (l.foldl g t)) : P (l.foldl f s) (l.foldl g t) := by
  induction l generalizing s t with
  | nil => exact h
  | cons a l ih =>
      have hfirst : ∀ (l : List α) {t : τ}, C (l.foldl g t) → C t := by
        intro l
        induction l with
        | nil => exact id
        | cons a l ih => exact fun hC => hback (ih hC)
      exact ih (fun b hb => hstep b (List.mem_cons_of_mem a hb))
        (hstep a List.mem_cons_self h (hfirst l hC)) hC

end

/-! ### Sending -/

section

variable {β γ : Type} [Buses β] [Buses γ] {Same : Bool → β → γ → Prop} {Clear : γ → Prop}
  (hc : Concur Same Clear) {D : ChannelMask} {r : Rig β} {s s' : Rig γ} {i : ChannelId}
  {told : Bool}

include hc

/-- What was asked of the buses, stays asked. -/
theorem Works.clear (h : s.Works s') (hclear : Clear s'.buses) : Clear s.buses := by
  induction h with
  | start => exact hclear
  | step _ haccess ih => exact ih (hc.clear_of_step haccess hclear)
  | record _ _ _ ih => exact ih hclear
  | say _ taken ih => exact ih (hc.clear_of_say taken hclear)
  | spend _ _ ih => exact ih hclear

namespace Level

theorem say (h : Level (Same told) D r s) (taken : Bool) :
    Level (Same true) D (r.setWorkRamTaken taken) (s.setWorkRamTaken taken) := by
  have hsaid := hc.say taken taken h.buses
  rw [beq_self_eq_true] at hsaid
  exact (h.modifyActivity _ _).withBuses hsaid

theorem read (h : Level (Same told) D r s) {a : Address} (hclear : Clear (s.read a).2.buses) :
    (s.read a).1 = (r.read a).1 ∧ Level (Same told) D (r.read a).2 (s.read a).2 :=
  have hread := hc.read a h.buses hclear
  ⟨hread.1, h.withBuses hread.2⟩

theorem readWord (h : Level (Same told) D r s) {a : Address}
    (hclear : Clear (s.readWord a).2.buses) :
    (s.readWord a).1 = (r.readWord a).1 ∧ Level (Same told) D (r.readWord a).2 (s.readWord a).2 :=
  have hread := hc.readWord a h.buses hclear
  ⟨hread.1, h.withBuses hread.2⟩

theorem bytePointer (h : Level (Same told) D r s) (a : Address) :
    (s.bytePointer a).1 = (r.bytePointer a).1 ∧
      Level (Same told) D (r.bytePointer a).2 (s.bytePointer a).2 :=
  have hasked := hc.bytePointer a h.buses
  ⟨hasked.1, h.withBuses hasked.2⟩

theorem peek (h : Level (Same told) D r s) (p : Pointer) :
    (s.peek p).1 = (r.peek p).1 ∧ Level (Same told) D (r.peek p).2 (s.peek p).2 :=
  have hpeek := hc.peek p h.buses
  ⟨hpeek.1, h.withBuses hpeek.2⟩

/-- A byte that both have fetched is written on both sides. -/
theorem write (h : Level (Same true) D r s) {v v' : UInt8} (hv : v' = v) (a : UInt16) :
    Level (Same true) D ((r.writeRegister a v).spend slowAccess)
      ((s.writeRegister a v').spend slowAccess) := by
  subst hv
  exact (h.withBuses (hc.writeRegister a v' h.buses)).spend _ _

end Level

theorem level_forUnit {mode : UnitMode} {f : Nat → UInt8 → Rig β → Rig β}
    {g : Nat → UInt8 → Rig γ → Rig γ}
    (hworks : ∀ (k : Nat) (o : UInt8) (s : Rig γ), s.Works (g k o s))
    (hstep : ∀ (k : Nat) (o : UInt8) {r : Rig β} {s : Rig γ}, Level (Same true) D r s →
      Clear (g k o s).buses → Level (Same true) D (f k o r) (g k o s))
    (h : Level (Same true) D r s) (hclear : Clear (s.forUnit mode g).buses) :
    Level (Same true) D (r.forUnit mode f) (s.forUnit mode g) :=
  foldl_level (C := fun s : Rig γ => Clear s.buses)
    (fun {s p} hclear => (hworks p.2 p.1 s).clear hc hclear) mode.offsets.zipIdx
    (fun p _ h hclear => hstep p.2 p.1 h hclear) h hclear

theorem level_refreshCache (h : Level (Same told) D r s) (hi : i ∉ D) :
    Level (Same told) D (r.refreshCache i) (s.refreshCache i) := by
  have hchannel := h.channel hi
  cases hcache : (r.channel i).cache with
  | some p =>
      rw [refreshCache_of_some hcache, refreshCache_of_some (hchannel ▸ hcache)]
      exact h
  | none =>
      rw [refreshCache_of_none hcache, refreshCache_of_none (hchannel ▸ hcache), hchannel]
      obtain ⟨hp, hasked⟩ := h.bytePointer hc
        (.of (r.channel i).lineBank (r.channel i).lineOffset)
      exact hasked.setChannel i (congrArg (fun p => { r.channel i with cache := p }) hp)

theorem level_pointSprites (h : Level (Same told) D r s) (c : Channel) :
    Level (Same told) D (r.pointSprites c) (s.pointSprites c) := by
  unfold pointSprites
  rw [h.controller.settings]
  split
  · exact h.withBuses (hc.setSpriteAddress _ h.buses)
  · exact h

theorem level_sendStraddling (h : Level (Same true) D r s) {c : Channel}
    (hclear : Clear (s.sendStraddling c).buses) :
    Level (Same true) D (r.sendStraddling c) (s.sendStraddling c) := by
  refine level_forUnit hc (fun _ _ _ => (((Works.start.say _).step (.read _ _)).step
    (.writeRegister _ _ _)).spend _) ?_ h hclear
  intro k o r s h hclear
  obtain ⟨hv, hread⟩ := (h.say hc (isWorkRam c.lineBank (c.lineOffset + UInt16.ofNat k))).read hc
    (hc.clear_of_step (.writeRegister _ _ _) hclear)
  exact hread.write hc hv (c.register o)

theorem level_sendMapped (h : Level (Same true) D r s) {c : Channel}
    (hclear : Clear (s.sendMapped c).buses) :
    Level (Same true) D (r.sendMapped c) (s.sendMapped c) := by
  refine level_forUnit hc (fun _ _ _ => ((Works.start.step (.read _ _)).step
    (.writeRegister _ _ _)).spend _) ?_ h hclear
  intro k o r s h hclear
  obtain ⟨hv, hread⟩ := h.read hc (hc.clear_of_step (.writeRegister _ _ _) hclear)
  exact hread.write hc hv (c.register o)

theorem level_sendDirect (h : Level (Same true) D r s) {c : Channel} {p : Pointer}
    (hclear : Clear (s.sendDirect c p).buses) :
    Level (Same true) D (r.sendDirect c p) (s.sendDirect c p) := by
  refine level_forUnit hc (fun k o s => ?_) ?_ h hclear
  · have hpeek : s.Works (s.peek (p.offset (UInt64.ofNat k))).2 := Works.start.step (.peek _ _)
    dsimp only
    split
    · exact ((hpeek.step (.setOpenBus _ _)).step (.writeRegister _ _ _)).spend _
    · exact (hpeek.step (.writeRegister _ _ _)).spend _
  · intro k o r s h _
    obtain ⟨hv, hpeek⟩ := h.peek hc (p.offset (UInt64.ofNat k))
    dsimp only
    split
    · have hleft := hc.setOpenBus (s.peek (p.offset (UInt64.ofNat k))).1 hpeek.buses
      rw [hv] at hleft ⊢
      exact (hpeek.withBuses hleft).write hc rfl (c.register o)
    · exact hpeek.write hc hv (c.register o)

/-- A channel that sends goes by what the rigs agree on. -/
theorem level_sendUnit (h : Level (Same true) D r s) (hi : i ∉ D)
    (hforward : (r.channel i).control.reverse = false) (hclear : Clear (s.sendUnit i).buses) :
    Level (Same true) D (r.sendUnit i) (s.sendUnit i) := by
  have hrefreshed := level_refreshCache hc h hi
  obtain ⟨p, hp⟩ := (r.recached_refreshCache i).own
  have hforward' : ((r.refreshCache i).channel i).control.reverse = false := by
    rw [hp]
    exact hforward
  rw [sendUnit_eq] at hclear
  rw [sendUnit_eq, sendUnit_eq]
  rw [hrefreshed.channel hi] at hclear ⊢
  generalize r.refreshCache i = r at hrefreshed hforward' hclear ⊢
  generalize s.refreshCache i = s at hrefreshed hclear ⊢
  generalize r.channel i = c at hforward' hclear ⊢
  have hpointed := level_pointSprites hc hrefreshed c
  dsimp only at hclear ⊢
  rw [hforward', if_neg Bool.false_ne_true] at hclear ⊢
  rw [if_neg Bool.false_ne_true]
  split
  · exact hrefreshed
  rename_i hpending
  rw [if_neg hpending] at hclear
  split
  · rename_i hb
    rw [if_pos hb] at hclear
    exact level_sendStraddling hc (hpointed.setCache hi none) hclear
  rename_i hb
  rw [if_neg hb] at hclear
  have hsaid := hpointed.say hc (isWorkRam c.lineBank c.lineOffset)
  cases hcache : c.cache with
  | none =>
      rw [hcache] at hclear
      exact level_sendMapped hc hsaid hclear
  | some p =>
      rw [hcache] at hclear
      exact (level_sendDirect hc hsaid hclear).setCache hi _

/-- Whatever was said of work RAM before, a turn of sending begins with a word of its own. -/
theorem level_sendInTurn (h : Level (Same told) D r s) (hi : i ∉ D)
    (hforward : (r.channel i).control.reverse = false) (hclear : Clear (s.sendInTurn i).buses) :
    Level (Same true) D (r.sendInTurn i) (s.sendInTurn i) :=
  level_sendUnit hc ((h.say hc false).setCurrent i) hi hforward hclear

/-! ### Headers -/

theorem level_endTable (h : Level (Same told) D r s) (hi : i ∉ D) (above : Bool)
    (hclear : Clear (s.endTable i above).buses) :
    Level (Same told) D (r.endTable i above) (s.endTable i above) := by
  unfold endTable at hclear ⊢
  rw [h.channel hi] at hclear ⊢
  generalize r.channel i = c at hclear ⊢
  dsimp only at hclear ⊢
  by_cases hindirect : c.control.indirect = true
  · rw [if_pos hindirect] at hclear
    rw [if_pos hindirect, if_pos hindirect]
    generalize (if above = true then c.table + 1 else c.table) = word at hclear ⊢
    generalize (if above = true then 2 * slowAccess else slowAccess) = n at hclear ⊢
    obtain ⟨hv, hread⟩ := (h.spend n n).readWord hc hclear
    refine hread.setChannel i ?_
    rw [hv]
  · rw [if_neg hindirect, if_neg hindirect]
    exact h.setChannel i rfl

theorem level_fetchPlace (h : Level (Same told) D r s) {c : Channel}
    (hclear : Clear (s.fetchPlace c).2.buses) :
    (s.fetchPlace c).1 = (r.fetchPlace c).1 ∧
      Level (Same told) D (r.fetchPlace c).2 (s.fetchPlace c).2 := by
  unfold fetchPlace at hclear ⊢
  by_cases hindirect : c.control.indirect = true
  · rw [if_pos hindirect] at hclear
    rw [if_pos hindirect, if_pos hindirect]
    obtain ⟨hv, hread⟩ := (h.spend (2 * slowAccess) (2 * slowAccess)).readWord hc hclear
    exact ⟨congrArg (fun w => { c with count := w, table := c.table + 2 }) hv, hread⟩
  · rw [if_neg hindirect, if_neg hindirect]
    exact ⟨rfl, h⟩

theorem level_openEntry (h : Level (Same told) D r s) (hi : i ∉ D) (lines : UInt8)
    (repeats : Bool) (hclear : Clear (s.openEntry i lines repeats).buses) :
    Level (Same told) D (r.openEntry i lines repeats) (s.openEntry i lines repeats) := by
  rw [openEntry_eq] at hclear
  rw [openEntry_eq, openEntry_eq]
  rw [h.channel hi] at hclear ⊢
  generalize (r.channel i).takeHeader lines repeats = c at hclear ⊢
  obtain ⟨hplaced, hfetched⟩ := level_fetchPlace hc h (c := c)
    (hc.clear_of_step (.bytePointer _ _) hclear)
  dsimp only
  rw [hplaced]
  generalize (r.fetchPlace c).1 = d
  obtain ⟨hp, hasked⟩ := hfetched.bytePointer hc (.of d.lineBank d.lineOffset)
  exact hasked.setChannel i (congrArg (fun p => { d with cache := p }) hp)

theorem level_fetchHeader (h : Level (Same told) D r s) (hi : i ∉ D)
    (hclear : Clear (s.fetchHeader i).2.buses) :
    (s.fetchHeader i).1 = (r.fetchHeader i).1 ∧
      Level (Same told) D (r.fetchHeader i).2 (s.fetchHeader i).2 := by
  rw [fetchHeader_eq] at hclear
  rw [fetchHeader_eq, fetchHeader_eq]
  rw [h.channel hi, h.controller.active] at hclear ⊢
  dsimp only at hclear ⊢
  generalize Address.of _ _ = a at hclear ⊢
  have hread : Clear (s.read a).2.buses := by
    cases hheader : Header.ofByte (s.read a).1 with
    | stop =>
        rw [hheader] at hclear
        exact (works_endTable ((s.read a).2.spend slowAccess) i _).clear hc hclear
    | entry lines repeats =>
        rw [hheader] at hclear
        exact (works_openEntry ((s.read a).2.spend slowAccess) i lines repeats).clear hc hclear
  obtain ⟨hv, hfetched⟩ := h.read hc hread
  rw [hv] at hclear ⊢
  cases hheader : Header.ofByte (r.read a).1 with
  | stop =>
      rw [hheader] at hclear
      exact ⟨rfl, level_endTable hc (hfetched.spend _ _) hi _ hclear⟩
  | entry lines repeats =>
      rw [hheader] at hclear
      exact ⟨rfl, level_openEntry hc (hfetched.spend _ _) hi lines repeats hclear⟩

theorem level_stepLine (h : Level (Same told) D r s) (hi : i ∉ D) (running : ChannelMask)
    (hclear : Clear (stepLine running s i).2.buses) :
    (stepLine running s i).1 = (stepLine running r i).1 ∧
      Level (Same told) D (stepLine running r i).2 (stepLine running s i).2 := by
  have hnext := h.modifyChannel hi Channel.nextLine
  rw [stepLine_eq] at hclear
  rw [stepLine_eq, stepLine_eq]
  rw [h.channel hi] at hclear ⊢
  dsimp only at hclear ⊢
  by_cases hlines : (r.channel i).nextLine.lines = 0
  · rw [if_pos hlines] at hclear
    rw [if_pos hlines, if_pos hlines]
    have hfetch : Clear ((s.modifyChannel i Channel.nextLine).fetchHeader i).2.buses := by
      split at hclear <;> exact hclear
    obtain ⟨hmore, hfetched⟩ := level_fetchHeader hc hnext hi hfetch
    rw [hmore]
    split
    · exact ⟨rfl, hfetched⟩
    · exact ⟨rfl, (hfetched.markEnded i).modifyChannel hi fun c => { c with pending := false }⟩
  · rw [if_neg hlines, if_neg hlines]
    exact ⟨rfl, hnext.spend _ _⟩

theorem level_prepareChannel (h : Level (Same told) D r s)
    (hi : i ∈ r.controller.active → i ∉ D) (hclear : Clear (s.prepareChannel i).buses) :
    Level (Same told) D (r.prepareChannel i) (s.prepareChannel i) := by
  by_cases hactive : i ∈ r.controller.active
  · have hi := hi hactive
    rw [prepareChannel_of_mem (h.controller.active ▸ hactive)] at hclear
    rw [prepareChannel_of_mem hactive, prepareChannel_of_mem (h.controller.active ▸ hactive)]
    have hrewound : Level (Same told) D (r.rewound i) (s.rewound i) :=
      (h.setCurrent i).modifyChannel hi _
    dsimp only at hclear ⊢
    have hfetch : Clear ((s.rewound i).fetchHeader i).2.buses := by
      split at hclear <;> exact hclear
    obtain ⟨hmore, hfetched⟩ := level_fetchHeader hc hrewound hi hfetch
    rw [hmore]
    split
    · exact hfetched
    · refine (hfetched.setActive ?_).markEnded i
      rw [hfetched.controller.active]
  · rw [prepareChannel_of_notMem hactive,
      prepareChannel_of_notMem (h.controller.active.symm ▸ hactive)]
    by_cases hi : i ∈ D
    · exact h.withController
        ((h.controller.setChannel_right hi _).symm.setChannel_right hi _).symm
    · exact h.modifyChannel hi _

/-! ### Lines and frames -/

/-- The channels of the line are outside of `D`, and all of them send. -/
def SendsOutside (D : ChannelMask) (r : Rig β) (m : ChannelMask) : Prop :=
  ∀ i ∈ m, i ∉ D ∧ (r.channel i).control.reverse = false

theorem level_sendLine (h : Level (Same false) D r s) {m : ChannelMask}
    (hm : r.SendsOutside D m) (hclear : Clear (s.sendLine m).buses) :
    Level (Same false) D (r.sendLine m) (s.sendLine m) := by
  have hopened : Level (Same false) D (r.openLine m) (s.openLine m) :=
    (h.modifyActivity _ _).spend _ _
  -- No turn changes the direction of a channel.
  refine (foldl_level (P := fun r s => Level (Same false) D r s ∧ r.SendsOutside D m)
    (C := fun s : Rig γ => Clear s.buses)
    (fun {s i} hclear => (works_sendInTurn s i).clear hc hclear) m.toList ?_ ⟨hopened, hm⟩
    hclear).1
  rintro r s i hi ⟨h, hm⟩ hclear
  obtain ⟨hD, hforward⟩ := hm i (ChannelMask.mem_toList.mp hi)
  have hsent := level_sendInTurn hc h hD hforward hclear
  refine ⟨⟨hsent.controller, hc.forget hsent.buses⟩, fun j hj => ⟨(hm j hj).1, ?_⟩⟩
  obtain ⟨p, hp⟩ := (r.recached_sendInTurn i).sameSetup j
  rw [hp]
  exact (hm j hj).2

theorem level_stepLines (h : Level (Same false) D r s) {m : ChannelMask} (hm : ∀ i ∈ m, i ∉ D)
    (hclear : Clear (s.stepLines m).2.buses) :
    (s.stepLines m).1 = (r.stepLines m).1 ∧
      Level (Same false) D (r.stepLines m).2 (s.stepLines m).2 := by
  refine foldl_level
    (P := fun (t : ChannelMask × Rig β) (u : ChannelMask × Rig γ) =>
      u.1 = t.1 ∧ Level (Same false) D t.2 u.2)
    (C := fun u : ChannelMask × Rig γ => Clear u.2.buses)
    (fun {u i} hclear => (works_stepLine u.1 u.2 i).clear hc hclear) m.toList ?_ ⟨rfl, h⟩ hclear
  rintro ⟨running, r⟩ ⟨_, s⟩ i hi ⟨rfl, h⟩ hclear
  exact level_stepLine hc h (hm i (ChannelMask.mem_toList.mp hi)) _ hclear

/-- The word on work RAM that a line puts back may be another one on each side. -/
theorem level_closeLine (h : Level (Same told) D r s) (before before' : Activity)
    (m running : ChannelMask) :
    Level (Same false) D (r.closeLine before m running) (s.closeLine before' m running) := by
  refine ⟨⟨h.controller.settings, h.controller.enabled, ?_, h.controller.ended,
    h.controller.channel⟩, hc.forget (hc.say before.workRamTaken before'.workRamTaken h.buses)⟩
  rw [active_closeLine, active_closeLine, h.controller.active]

theorem level_runLine (h : Level (Same false) D r s) {m : ChannelMask}
    (hm : r.SendsOutside D m) (hclear : Clear (s.runLine m).2.buses) :
    (s.runLine m).1 = (r.runLine m).1 ∧
      Level (Same false) D (r.runLine m).2 (s.runLine m).2 := by
  rw [runLine_snd] at hclear
  have hstep : Clear ((s.sendLine m).stepLines m).2.buses := hc.clear_of_say _ hclear
  have hsend : Clear (s.sendLine m).buses :=
    (Works.foldl (fun u : ChannelMask × Rig γ => u.2) (fun u i => works_stepLine u.1 u.2 i)
      m.toList (m, s.sendLine m)).clear hc hstep
  have hsent := level_sendLine hc h hm hsend
  obtain ⟨hrunning, hstepped⟩ := level_stepLines hc hsent (fun i hi => (hm i hi).1) hstep
  rw [runLine_fst, runLine_fst, runLine_snd, runLine_snd, runLine_fst, runLine_fst, hrunning]
  exact ⟨rfl, level_closeLine hc hstepped _ _ m _⟩

theorem level_beginFrame (h : Level (Same false) D r s)
    (henabled : ∀ i ∈ r.controller.enabled, i ∉ D) (hclear : Clear s.beginFrame.buses) :
    Level (Same false) D r.beginFrame s.beginFrame := by
  have hopened : Level (Same false) D r.openFrame s.openFrame := by
    refine ⟨?_, ?_⟩
    · rw [controller_openFrame, controller_openFrame]
      exact ⟨h.controller.settings, h.controller.enabled, h.controller.enabled, rfl,
        h.controller.channel⟩
    · rw [buses_openFrame, buses_openFrame]
      exact h.buses
  have hactive : ∀ i ∈ r.openFrame.controller.active, i ∉ D := by
    rw [controller_openFrame]
    exact henabled
  rw [beginFrame_eq, beginFrame_eq]
  refine Level.modifyActivity ?_ _ _
  refine (foldl_level
    (P := fun r s => Level (Same false) D r s ∧ ∀ i ∈ r.controller.active, i ∉ D)
    (C := fun s : Rig γ => Clear s.buses)
    (fun {s i} hclear => (works_prepareChannel s i).clear hc hclear) (List.finRange 8) ?_
    ⟨hopened, hactive⟩ hclear).1
  rintro r s i - ⟨h, hactive⟩ hclear
  exact ⟨level_prepareChannel hc h (hactive i) hclear,
    fun j hj => hactive j ((r.prepareChannel_keeps i).2.2 j hj)⟩

end

end Rig

end DmaController
