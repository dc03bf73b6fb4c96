import DmaController.Proofs.LineTransfer.Units

/-! # Direct access and the memory map

Buses that open their memory and buses that never do are to serve line transfers alike.  `Same b c`
stands for whatever it means that the opening buses are in state `b` and the mapped ones in
state `c` at a time; `Alike Same` asks that both answer the accesses of a controller alike, that the
mapped ones open nothing, and that a pointer given out by the others *leads* to the bytes that
reading shows, up to the end of its block.

A rig *mirrors* another if it has the same controller but for the direct access of the channels,
which it has none of.  The two are taken through a line in step.  What ties the pointer of a
channel to its registers is `Channel.Cached`, with `Leads` for the right pointers: in the first
round the pointers run ahead of the registers by a unit, and in the second the registers follow.
Lines and frames then get the same answers from both, and leave them in step (`inStep_runLine`,
`inStep_beginFrame`). -/

namespace DmaController

/-! ### Two kinds of buses -/

section

variable {β γ : Type} [Buses β] [Buses γ]

/-- The byte `k` places behind the pointer `p` on the first buses is the one at `bank:(o + k)` on
the second, as long as this lies in the block of `bank:o`, and sending it to a register goes the
same on both, whether or not it was left floating on the first. -/
def Leads (Same : β → γ → Prop) (p : Pointer) (bank : UInt8) (o : UInt16) : Prop :=
  ∀ {b : β} {c : γ} (k : Nat), Same b c → positionInBlock o + k < blockSize →
    let peeked := Buses.peek (p.offset (UInt64.ofNat k)) b
    let read := Buses.read (.of bank (o + UInt16.ofNat k)) c
    ∃ v, peeked.1 = v ∧ read.1 = v ∧ ∀ a,
      Same (Buses.writeRegister a v peeked.2) (Buses.writeRegister a v read.2) ∧
      Same (Buses.writeRegister a v (Buses.setOpenBus v peeked.2))
        (Buses.writeRegister a v read.2)

/-- The two kinds of buses serve line transfers alike, but the second opens no memory. -/
structure Alike (Same : β → γ → Prop) : Prop where
  read : ∀ {b c} (a : Address), Same b c →
    (Buses.read a b).1 = (Buses.read a c).1 ∧ Same (Buses.read a b).2 (Buses.read a c).2
  readWord : ∀ {b c} (a : Address), Same b c →
    (Buses.readWord a b).1 = (Buses.readWord a c).1 ∧
      Same (Buses.readWord a b).2 (Buses.readWord a c).2
  readRegister : ∀ {b c} (a : UInt16), Same b c →
    (Buses.readRegister a b).1 = (Buses.readRegister a c).1 ∧
      Same (Buses.readRegister a b).2 (Buses.readRegister a c).2
  write : ∀ {b c} (a : Address) (v : UInt8), Same b c →
    Same (Buses.write a v b) (Buses.write a v c)
  writeRegister : ∀ {b c} (a : UInt16) (v : UInt8), Same b c →
    Same (Buses.writeRegister a v b) (Buses.writeRegister a v c)
  setWorkRamTaken : ∀ {b c} (taken : Bool), Same b c →
    Same (Buses.setWorkRamTaken taken b) (Buses.setWorkRamTaken taken c)
  setSpriteAddress : ∀ {b c} (a : UInt16), Same b c →
    Same (Buses.setSpriteAddress a b) (Buses.setSpriteAddress a c)
  /-- Asking the first for a pointer changes nothing. -/
  asked : ∀ {b c} (a : Address), Same b c → Same (Buses.bytePointer a b).2 c
  opened : ∀ {b c} {bank : UInt8} {o : UInt16} {p : Pointer}, Same b c →
    (Buses.bytePointer (.of bank o) b).1 = some p → Leads Same p bank o
  closed : ∀ {b c} (a : Address), Same b c →
    (Buses.bytePointer a c).1 = none ∧ Same b (Buses.bytePointer a c).2

end

/-! ### A controller without direct access -/

/-- The channel without direct access. -/
def Channel.closed (c : Channel) : Channel := { c with cache := none }

@[simp] theorem Channel.closed_nextLine (c : Channel) : c.closed.nextLine = c.nextLine.closed := by
  unfold nextLine afterUnit passUnit closed
  dsimp only
  split
  · split <;> rfl
  · rfl

theorem Channel.closed_of_none {c : Channel} (h : c.cache = none) : c.closed = c := by
  rw [closed, ← h]

namespace Controller

/-- The controller without direct access in any channel. -/
def closed (k : Controller) : Controller := { k with channels := k.channels.map Channel.closed }

@[simp] theorem channel_closed (k : Controller) (i : ChannelId) :
    k.closed.channel i = (k.channel i).closed := by
  simp [closed, channel]

@[simp] theorem closed_setChannel (k : Controller) (i : ChannelId) (c : Channel) :
    (k.setChannel i c).closed = k.closed.setChannel i c.closed := by
  simp [closed, setChannel, Vector.map_set]

theorem closed_of_none {k : Controller} (h : ∀ i, (k.channel i).cache = none) : k.closed = k := by
  have hchannels : k.channels.map Channel.closed = k.channels := by
    apply Vector.ext
    intro i hi
    rw [Vector.getElem_map]
    exact Channel.closed_of_none (h ⟨i, hi⟩)
  rw [closed, hchannels]

theorem closed_enable (k : Controller) (m : ChannelMask) :
    k.closed.enable m = (k.enable m).closed := by
  unfold enable
  rw [show k.closed.activity = k.activity from rfl]
  split <;> rfl

end Controller

namespace Rig

variable {β γ : Type} [Buses β] [Buses γ] {Same : β → γ → Prop} {r : Rig β} {s : Rig γ}

/-- The rig `s` has come as far as `r`, without direct access. -/
structure Mirrors (Same : β → γ → Prop) (r : Rig β) (s : Rig γ) : Prop where
  controller : s.controller = r.controller.closed
  buses : Same r.buses s.buses
  cycles : s.cycles = r.cycles

/-! ### Single steps -/

namespace Mirrors

section

omit [Buses β] [Buses γ]

theorem channel (h : Mirrors Same r s) (i : ChannelId) : s.channel i = (r.channel i).closed := by
  rw [Rig.channel, h.controller, Controller.channel_closed]
  rfl

theorem active (h : Mirrors Same r s) : s.controller.active = r.controller.active := by
  rw [h.controller]
  rfl

theorem activity (h : Mirrors Same r s) : s.controller.activity = r.controller.activity := by
  rw [h.controller]
  rfl

theorem settings (h : Mirrors Same r s) : s.controller.settings = r.controller.settings := by
  rw [h.controller]
  rfl

theorem withBuses (h : Mirrors Same r s) {b : β} {c : γ} (hs : Same b c) :
    Mirrors Same { r with buses := b } { s with buses := c } := ⟨h.controller, hs, h.cycles⟩

theorem withController (h : Mirrors Same r s) {k : Controller} {l : Controller}
    (hk : l = k.closed) : Mirrors Same { r with controller := k } { s with controller := l } :=
  ⟨hk, h.buses, h.cycles⟩

theorem spend (h : Mirrors Same r s) (n : Int) : Mirrors Same (r.spend n) (s.spend n) :=
  ⟨h.controller, h.buses, by rw [Rig.spend, Rig.spend, h.cycles]⟩

theorem modifyActivity (h : Mirrors Same r s) (f : Activity → Activity) :
    Mirrors Same (r.modifyActivity f) (s.modifyActivity f) :=
  h.withController (by rw [h.controller]; rfl)

theorem setCurrent (h : Mirrors Same r s) (i : ChannelId) :
    Mirrors Same (r.setCurrent i) (s.setCurrent i) := h.modifyActivity _

theorem markEnded (h : Mirrors Same r s) (i : ChannelId) :
    Mirrors Same (r.markEnded i) (s.markEnded i) :=
  h.withController (by rw [h.controller]; rfl)

theorem setActive (h : Mirrors Same r s) (m : ChannelMask) :
    Mirrors Same (r.setActive m) (s.setActive m) :=
  h.withController (by rw [h.controller]; rfl)

theorem setChannel (h : Mirrors Same r s) (i : ChannelId) {c d : Channel} (hc : d = c.closed) :
    Mirrors Same (r.setChannel i c) (s.setChannel i d) :=
  h.withController (by rw [h.controller, hc, Controller.closed_setChannel])

theorem modifyChannel (h : Mirrors Same r s) (i : ChannelId) {f : Channel → Channel}
    (hf : ∀ c, f c.closed = (f c).closed) :
    Mirrors Same (r.modifyChannel i f) (s.modifyChannel i f) :=
  h.setChannel i (by rw [h.channel, hf])

theorem dropCache (h : Mirrors Same r s) (i : ChannelId) :
    Mirrors Same (r.setCache i none) (s.setCache i none) := h.modifyChannel i fun _ => rfl

/-- What the first rig remembers of direct access makes no difference. -/
theorem setCache (h : Mirrors Same r s) (i : ChannelId) (p : Option Pointer) :
    Mirrors Same (r.setCache i p) s := by
  refine ⟨?_, h.buses, h.cycles⟩
  have hown : ({ r.channel i with cache := p } : Channel).closed = r.controller.closed.channel i :=
    (r.controller.channel_closed i).symm
  show _ = (r.controller.setChannel i { r.channel i with cache := p }).closed
  rw [Controller.closed_setChannel, hown, Controller.setChannel_channel, h.controller]

end

variable (hsame : Alike Same)

include hsame

theorem setWorkRamTaken (h : Mirrors Same r s) (taken : Bool) :
    Mirrors Same (r.setWorkRamTaken taken) (s.setWorkRamTaken taken) :=
  (h.modifyActivity _).withBuses (hsame.setWorkRamTaken taken h.buses)

theorem read (h : Mirrors Same r s) (a : Address) :
    (s.read a).1 = (r.read a).1 ∧ Mirrors Same (r.read a).2 (s.read a).2 :=
  have hread := hsame.read a h.buses
  ⟨hread.1.symm, h.withBuses hread.2⟩

theorem readWord (h : Mirrors Same r s) (a : Address) :
    (s.readWord a).1 = (r.readWord a).1 ∧ Mirrors Same (r.readWord a).2 (s.readWord a).2 :=
  have hread := hsame.readWord a h.buses
  ⟨hread.1.symm, h.withBuses hread.2⟩

theorem readRegister (h : Mirrors Same r s) (a : UInt16) :
    (s.readRegister a).1 = (r.readRegister a).1 ∧
      Mirrors Same (r.readRegister a).2 (s.readRegister a).2 :=
  have hread := hsame.readRegister a h.buses
  ⟨hread.1.symm, h.withBuses hread.2⟩

theorem write (h : Mirrors Same r s) (a : Address) (v : UInt8) :
    Mirrors Same (r.write a v) (s.write a v) := h.withBuses (hsame.write a v h.buses)

theorem writeRegister (h : Mirrors Same r s) (a : UInt16) (v : UInt8) :
    Mirrors Same (r.writeRegister a v) (s.writeRegister a v) :=
  h.withBuses (hsame.writeRegister a v h.buses)

end Mirrors

end Rig

/-! ### Sending -/

section

variable {β γ : Type} [Buses β] [Buses γ] {Same : β → γ → Prop} (hsame : Alike Same)

include hsame

/-- The pointers of the first buses move along inside a block. -/
theorem Alike.reaching : Reaching (fun b => ∃ c, Same b c) (Leads Same) where
  opened := by
    rintro b bank o p ⟨c, hs⟩ hp
    exact hsame.opened hs hp
  moved := by
    intro bank o p n hn hp b c k hs hk
    rw [positionInBlock_add hn, Nat.add_assoc] at hk
    rw [Pointer.offset_offset, ← UInt64.ofNat_add, UInt16.add_assoc, ← UInt16.ofNat_add]
    exact hp (n + k) hs hk
  good_read := by
    rintro b a ⟨c, hs⟩
    exact ⟨_, (hsame.read a hs).2⟩
  good_readWord := by
    rintro b a ⟨c, hs⟩
    exact ⟨_, (hsame.readWord a hs).2⟩

namespace Rig

variable {r : Rig β} {s : Rig γ} {i : ChannelId}

omit [Buses β] [Buses γ] hsame in
/-- Units go the same way where each of their bytes does. -/
theorem Mirrors.forUnit {mode : UnitMode} {f : Nat → UInt8 → Rig β → Rig β}
    {g : Nat → UInt8 → Rig γ → Rig γ}
    (hstep : ∀ k o r s, k < mode.size → Mirrors Same r s → Mirrors Same (f k o r) (g k o s))
    (h : Mirrors Same r s) : Mirrors Same (r.forUnit mode f) (s.forUnit mode g) := by
  have hk : ∀ p ∈ mode.offsets.zipIdx, p.2 < mode.size := fun _ => lt_size_of_mem_zipIdx
  unfold Rig.forUnit
  generalize mode.offsets.zipIdx = l at hk
  induction l generalizing r s with
  | nil => exact h
  | cons p l ih =>
      exact ih (hstep p.2 p.1 r s (hk p List.mem_cons_self) h)
        (fun q hq => hk q (List.mem_cons_of_mem p hq))

theorem mirrors_refreshCache (h : Mirrors Same r s) (i : ChannelId) :
    Mirrors Same (r.refreshCache i) (s.refreshCache i) := by
  have hs : (s.channel i).cache = none := by rw [h.channel]; rfl
  have hplace : (s.channel i).lineBank = (r.channel i).lineBank ∧
      (s.channel i).lineOffset = (r.channel i).lineOffset := by rw [h.channel]; exact ⟨rfl, rfl⟩
  rw [refreshCache_of_none hs, hplace.1, hplace.2]
  generalize ha : Address.of (r.channel i).lineBank (r.channel i).lineOffset = a
  obtain ⟨hnone, hclosed⟩ := hsame.closed a h.buses
  have hown : ({ s.channel i with cache := (s.bytePointer a).1 } : Channel) =
      (r.channel i).closed := by
    rw [h.channel, show (s.bytePointer a).1 = none from hnone]
    rfl
  have hmapped : Mirrors Same r (s.bytePointer a).2 := h.withBuses hclosed
  cases hc : (r.channel i).cache with
  | some p =>
      have hkept := hmapped.setChannel i hown
      rw [refreshCache_of_some hc]
      rwa [setChannel, show r.channel i = r.controller.channel i from rfl,
        Controller.setChannel_channel] at hkept
  | none =>
      rw [refreshCache_of_none hc, ha]
      have hasked : Mirrors Same (r.bytePointer a).2 (s.bytePointer a).2 :=
        hmapped.withBuses (hsame.asked a hclosed)
      exact hasked.setChannel i hown

theorem mirrors_pointSprites (h : Mirrors Same r s) (c : Channel) :
    Mirrors Same (r.pointSprites c) (s.pointSprites c) := by
  unfold pointSprites
  rw [h.settings]
  split
  · exact h.withBuses (hsame.setSpriteAddress _ h.buses)
  · exact h

theorem mirrors_collectUnit (h : Mirrors Same r s) (c : Channel) :
    Mirrors Same (r.collectUnit c) (s.collectUnit c) := by
  refine h.forUnit ?_
  intro k o r s _ h
  have ht := h.setWorkRamTaken hsame (isWorkRam c.lineBank (c.lineOffset + UInt16.ofNat k))
  obtain ⟨hv, hread⟩ := ht.readRegister hsame (c.register o)
  dsimp only
  rw [hv]
  exact (hread.write hsame _ _).spend _

theorem mirrors_sendStraddling (h : Mirrors Same r s) (c : Channel) :
    Mirrors Same (r.sendStraddling c) (s.sendStraddling c) := by
  refine h.forUnit ?_
  intro k o r s _ h
  have ht := h.setWorkRamTaken hsame (isWorkRam c.lineBank (c.lineOffset + UInt16.ofNat k))
  obtain ⟨hv, hread⟩ := ht.read hsame (.of c.lineBank (c.lineOffset + UInt16.ofNat k))
  dsimp only
  rw [hv]
  exact (hread.writeRegister hsame _ _).spend _

theorem mirrors_sendMapped (h : Mirrors Same r s) (c : Channel) :
    Mirrors Same (r.sendMapped c) (s.sendMapped c) := by
  refine h.forUnit ?_
  intro k o r s _ h
  obtain ⟨hv, hread⟩ := h.read hsame (Address.of c.lineBank c.lineOffset + UInt32.ofNat k)
  dsimp only
  rw [hv]
  exact (hread.writeRegister hsame _ _).spend _

omit hsame in
/-- A pointer that leads to the unit sends it as the memory map does. -/
theorem mirrors_sendDirect (h : Mirrors Same r s) {c : Channel} {p : Pointer}
    (hp : Leads Same p c.lineBank c.lineOffset)
    (hinside : positionInBlock c.lineOffset + c.mode.size < blockSize) :
    Mirrors Same (r.sendDirect c p) (s.sendMapped c) := by
  refine h.forUnit ?_
  intro k o r s hk h
  obtain ⟨v, hpeek, hread, hw⟩ := hp k h.buses (by omega)
  rw [← Address.of_add_ofNat (by omega)] at hread hw
  dsimp only
  rw [show (r.peek (p.offset (UInt64.ofNat k))).1 = v from hpeek,
    show (s.read (Address.of c.lineBank c.lineOffset + UInt32.ofNat k)).1 = v from hread]
  split
  · exact (h.withBuses (hw (c.register o)).2).spend _
  · exact (h.withBuses (hw (c.register o)).1).spend _

theorem mirrors_sendUnit (h : Mirrors Same r s) (hc : (r.channel i).Cached (Leads Same)) :
    Mirrors Same (r.sendUnit i) (s.sendUnit i) := by
  have hr := mirrors_refreshCache hsame h i
  have hc := cached_refreshCache hsame.reaching ⟨_, h.buses⟩ hc
  rw [sendUnit_eq, sendUnit_eq, hr.channel]
  generalize r.refreshCache i = r at hr hc ⊢
  generalize s.refreshCache i = s at hr ⊢
  generalize r.channel i = c at hc ⊢
  have hpointed := mirrors_pointSprites hsame hr c
  dsimp only
  rw [show c.closed.pending = c.pending from rfl]
  cases c.pending with
  | false => exact hr
  | true =>
      rw [Bool.not_true, if_neg Bool.false_ne_true, if_neg Bool.false_ne_true,
        show c.closed.control = c.control from rfl,
        show c.closed.unitReachesBlockEnd = c.unitReachesBlockEnd from rfl]
      by_cases hreverse : c.control.reverse = true
      · rw [if_pos hreverse, if_pos hreverse]
        exact mirrors_collectUnit hsame (hpointed.dropCache i) c
      rw [if_neg hreverse, if_neg hreverse]
      by_cases hb : c.unitReachesBlockEnd = true
      · rw [if_pos hb, if_pos hb]
        exact mirrors_sendStraddling hsame (hpointed.dropCache i) c
      rw [if_neg hb, if_neg hb]
      have htaken := hpointed.setWorkRamTaken hsame (isWorkRam c.lineBank c.lineOffset)
      have hinside : positionInBlock c.lineOffset + c.mode.size < blockSize := by
        simpa [Channel.unitReachesBlockEnd] using hb
      cases hcache : c.cache with
      | none => exact mirrors_sendMapped hsame htaken c
      | some p => exact (mirrors_sendDirect htaken (hc p hcache) hinside).setCache i _

/-! ### Headers -/

theorem mirrors_endTable (h : Mirrors Same r s) (i : ChannelId) (above : Bool) :
    Mirrors Same (r.endTable i above) (s.endTable i above) := by
  unfold endTable
  rw [h.channel]
  generalize r.channel i = c
  dsimp only
  rw [show c.closed.control = c.control from rfl]
  split
  · obtain ⟨hv, hread⟩ := (h.spend (if above then 2 * slowAccess else slowAccess)).readWord hsame
      (.of c.bank (if above then c.table + 1 else c.table))
    refine hread.setChannel i ?_
    rw [← hv]
    rfl
  · exact h.setChannel i rfl

theorem mirrors_fetchPlace (h : Mirrors Same r s) (c : Channel) :
    (s.fetchPlace c.closed).1 = (r.fetchPlace c).1.closed ∧
      Mirrors Same (r.fetchPlace c).2 (s.fetchPlace c.closed).2 := by
  unfold fetchPlace
  rw [show c.closed.control = c.control from rfl]
  split
  · obtain ⟨hv, hread⟩ := (h.spend (2 * slowAccess)).readWord hsame (.of c.bank c.table)
    have hword := congrArg
      (fun w => Channel.closed { c with count := w, table := c.table + 2 }) hv
    exact ⟨hword, hread⟩
  · exact ⟨rfl, h⟩

theorem mirrors_openEntry (h : Mirrors Same r s) (i : ChannelId) (lines : UInt8) (repeats : Bool) :
    Mirrors Same (r.openEntry i lines repeats) (s.openEntry i lines repeats) := by
  rw [openEntry_eq, openEntry_eq, h.channel]
  obtain ⟨hplaced, hfetched⟩ :=
    mirrors_fetchPlace hsame h ((r.channel i).takeHeader lines repeats)
  rw [show (r.channel i).closed.takeHeader lines repeats =
    ((r.channel i).takeHeader lines repeats).closed from rfl]
  generalize s.fetchPlace _ = placed at hplaced hfetched ⊢
  generalize r.fetchPlace _ = placed' at hplaced hfetched ⊢
  dsimp only
  rw [hplaced, show placed'.1.closed.lineBank = placed'.1.lineBank from rfl,
    show placed'.1.closed.lineOffset = placed'.1.lineOffset from rfl]
  generalize Address.of _ _ = a
  obtain ⟨hnone, hclosed⟩ := hsame.closed a hfetched.buses
  have hasked : Mirrors Same (placed'.2.bytePointer a).2 (placed.2.bytePointer a).2 :=
    (hfetched.withBuses hclosed).withBuses (hsame.asked a hclosed)
  refine hasked.setChannel i ?_
  rw [show (placed.2.bytePointer a).1 = none from hnone]
  rfl

theorem mirrors_fetchHeader (h : Mirrors Same r s) (i : ChannelId) :
    (s.fetchHeader i).1 = (r.fetchHeader i).1 ∧
      Mirrors Same (r.fetchHeader i).2 (s.fetchHeader i).2 := by
  rw [fetchHeader_eq, fetchHeader_eq, h.channel, h.active]
  dsimp only
  rw [show (r.channel i).closed.bank = (r.channel i).bank from rfl,
    show (r.channel i).closed.table = (r.channel i).table from rfl]
  generalize Address.of _ _ = a
  obtain ⟨hv, hread⟩ := h.read hsame a
  rw [hv]
  cases Header.ofByte (r.read a).1 with
  | stop => exact ⟨rfl, mirrors_endTable hsame (hread.spend _) i _⟩
  | entry lines repeats => exact ⟨rfl, mirrors_openEntry hsame (hread.spend _) i lines repeats⟩

theorem mirrors_stepLine (h : Mirrors Same r s) (running : ChannelMask) (i : ChannelId) :
    (stepLine running s i).1 = (stepLine running r i).1 ∧
      Mirrors Same (stepLine running r i).2 (stepLine running s i).2 := by
  rw [stepLine_eq, stepLine_eq, h.channel, Channel.closed_nextLine]
  obtain ⟨hmore, hfetched⟩ := mirrors_fetchHeader hsame
    (h.modifyChannel i (f := Channel.nextLine) Channel.closed_nextLine) i
  dsimp only
  rw [hmore, show (r.channel i).nextLine.closed.lines = (r.channel i).nextLine.lines from rfl]
  split
  · split
    · exact ⟨rfl, hfetched⟩
    · exact ⟨rfl, (hfetched.markEnded i).modifyChannel i
        (f := fun c => { c with pending := false }) fun _ => rfl⟩
  · exact ⟨rfl, (h.modifyChannel i Channel.closed_nextLine).spend _⟩

theorem mirrors_prepareChannel (h : Mirrors Same r s) (i : ChannelId) :
    Mirrors Same (r.prepareChannel i) (s.prepareChannel i) := by
  by_cases hi : i ∈ r.controller.active
  · rw [prepareChannel_of_mem hi, prepareChannel_of_mem (h.active ▸ hi)]
    have hrewound : Mirrors Same (r.rewound i) (s.rewound i) :=
      (h.setCurrent i).modifyChannel i fun _ => rfl
    obtain ⟨hmore, hfetched⟩ := mirrors_fetchHeader hsame hrewound i
    dsimp only
    rw [hmore, hfetched.active]
    split
    · exact hfetched
    · exact (hfetched.setActive _).markEnded i
  · rw [prepareChannel_of_notMem hi, prepareChannel_of_notMem (h.active ▸ hi)]
    exact h.modifyChannel i fun _ => rfl

/-! ### Lines and frames -/

omit [Buses β] [Buses γ] hsame in
/-- Two rounds in step: each turn keeps `P`, asks `Q` of its channel and leaves `R` of it, and the
turns of others make no difference to either. -/
theorem foldl_lockstep {σ τ : Type} {P : σ → τ → Prop} {Q R : ChannelId → σ → Prop}
    {f : σ → ChannelId → σ} {g : τ → ChannelId → τ}
    (hstep : ∀ {s t i}, P s t → Q i s → P (f s i) (g t i) ∧ R i (f s i))
    (hothers : ∀ {s i j}, j ≠ i → (Q j s → Q j (f s i)) ∧ (R j s → R j (f s i)))
    {l : List ChannelId} (hl : l.Nodup) {s : σ} {t : τ} (h : P s t) (hQ : ∀ i ∈ l, Q i s) :
    P (l.foldl f s) (l.foldl g t) ∧ ∀ i ∈ l, R i (l.foldl f s) := by
  induction l generalizing s t with
  | nil => exact ⟨h, fun _ hi => by cases hi⟩
  | cons i l ih =>
      obtain ⟨hi, hl⟩ := List.nodup_cons.mp hl
      have hne : ∀ {j}, j ∈ l → j ≠ i := fun hj e => hi (e ▸ hj)
      obtain ⟨hkept, hown⟩ := hstep h (hQ i List.mem_cons_self)
      obtain ⟨hlast, hleft⟩ := ih hl hkept fun j hj =>
        (hothers (hne hj)).1 (hQ j (List.mem_cons_of_mem i hj))
      refine ⟨hlast, ?_⟩
      intro j hj
      rcases List.mem_cons.mp hj with rfl | hj
      · exact foldl_induction (P := R j) l
          (fun _ k hk => (hothers (Ne.symm (hne hk))).2) hown
      · exact hleft j hj

omit [Buses β] [Buses γ] hsame in
theorem mirrors_openLine (h : Mirrors Same r s) (m : ChannelMask) :
    Mirrors Same (r.openLine m) (s.openLine m) := by
  obtain ⟨_, _, _⟩ := s
  obtain ⟨rfl, hbuses, rfl⟩ := h
  exact ⟨rfl, hbuses, rfl⟩

theorem mirrors_closeLine (h : Mirrors Same r s) (before : Activity) (m running : ChannelMask) :
    Mirrors Same (r.closeLine before m running) (s.closeLine before m running) := by
  obtain ⟨_, _, _⟩ := s
  obtain ⟨rfl, hbuses, rfl⟩ := h
  exact ⟨rfl, hsame.setWorkRamTaken _ hbuses, rfl⟩

/-- A round of sending: the channels come to their turns with the right pointers, and leave them
with the right ones for the units behind. -/
theorem mirrors_sendLine (h : Mirrors Same r s) (m : ChannelMask)
    (hc : ∀ i ∈ m, (r.channel i).Cached (Leads Same)) :
    Mirrors Same (r.sendLine m) (s.sendLine m) ∧
      ∀ i ∈ m, ((r.sendLine m).channel i).afterUnit.Cached (Leads Same) := by
  obtain ⟨hlast, hcached⟩ := foldl_lockstep
    (P := Mirrors Same) (f := sendInTurn) (g := sendInTurn)
    (Q := fun i t => (t.channel i).Cached (Leads Same))
    (R := fun i t => (t.channel i).afterUnit.Cached (Leads Same))
    (by
      intro r s i h hc
      have hcurrent := (h.setWorkRamTaken hsame false).setCurrent i
      exact ⟨mirrors_sendUnit hsame hcurrent hc,
        cached_sendUnit hsame.reaching ⟨_, hcurrent.buses⟩ hc⟩)
    (by
      intro r i j hj
      rw [(recached_sendInTurn r i).channel hj]
      exact ⟨id, id⟩)
    m.nodup_toList (mirrors_openLine h m) fun i hi => hc i (ChannelMask.mem_toList.mp hi)
  exact ⟨hlast, fun i hi => hcached i (ChannelMask.mem_toList.mpr hi)⟩

/-- A round of stepping on: the registers follow the pointers. -/
theorem mirrors_stepLines (h : Mirrors Same r s) (m : ChannelMask)
    (hc : ∀ i ∈ m, (r.channel i).afterUnit.Cached (Leads Same)) :
    ((s.stepLines m).1 = (r.stepLines m).1 ∧ Mirrors Same (r.stepLines m).2 (s.stepLines m).2) ∧
      ∀ i ∈ m, ((r.stepLines m).2.channel i).Cached (Leads Same) := by
  obtain ⟨hlast, hcached⟩ := foldl_lockstep
    (P := fun (t : ChannelMask × Rig β) (u : ChannelMask × Rig γ) =>
      u.1 = t.1 ∧ Mirrors Same t.2 u.2)
    (Q := fun i t => (t.2.channel i).afterUnit.Cached (Leads Same))
    (R := fun i t => (t.2.channel i).Cached (Leads Same))
    (f := fun t i => stepLine t.1 t.2 i) (g := fun u i => stepLine u.1 u.2 i)
    (by
      rintro ⟨running, r⟩ ⟨_, s⟩ i ⟨rfl, h⟩ hc
      exact ⟨mirrors_stepLine hsame h _ i,
        (cached_stepLine hsame.reaching ⟨_, h.buses⟩ hc).1⟩)
    (by
      intro t i j hj
      rw [(turn_stepLine t.1 t.2 i).channel hj]
      exact ⟨id, id⟩)
    m.nodup_toList (s := (m, r)) (t := (m, s)) ⟨rfl, h⟩
    (fun i hi => hc i (ChannelMask.mem_toList.mp hi))
  exact ⟨hlast, fun i hi => hcached i (ChannelMask.mem_toList.mpr hi)⟩

/-- The rigs are in step, and the first has the right pointers. -/
structure InStep (Same : β → γ → Prop) (r : Rig β) (s : Rig γ) : Prop
    extends Mirrors Same r s where
  cached : ∀ i, (r.channel i).Cached (Leads Same)

theorem inStep_runLine (h : InStep Same r s) (m : ChannelMask) :
    (s.runLine m).1 = (r.runLine m).1 ∧ InStep Same (r.runLine m).2 (s.runLine m).2 := by
  obtain ⟨hsent, hunits⟩ := mirrors_sendLine hsame h.toMirrors m fun i _ => h.cached i
  obtain ⟨⟨hrunning, hstepped⟩, hcached⟩ := mirrors_stepLines hsame hsent m hunits
  rw [← runLine_fst, ← runLine_fst] at hrunning
  refine ⟨hrunning, ?_, ?_⟩
  · rw [runLine_snd, runLine_snd, hrunning, h.activity]
    exact mirrors_closeLine hsame hstepped _ m _
  · intro i
    by_cases hi : i ∈ m
    · rw [runLine_snd, channel_closeLine]
      exact hcached i hi
    · rw [channel_runLine_of_notMem hi]
      exact h.cached i

theorem inStep_prepareChannel (h : InStep Same r s) (i : ChannelId) :
    InStep Same (r.prepareChannel i) (s.prepareChannel i) := by
  refine ⟨mirrors_prepareChannel hsame h.toMirrors i, ?_⟩
  intro j
  by_cases hj : j = i
  · subst hj
    by_cases hi : j ∈ r.controller.active
    · rw [prepareChannel_of_mem hi]
      have hfetched := (cached_fetchHeader hsame.reaching (r := r.rewound j) (i := j)
        ⟨_, h.buses⟩).1
      dsimp only
      split <;> exact hfetched
    · rw [prepareChannel_of_notMem hi, channel_modifyChannel, if_pos rfl]
      exact h.cached j
  · rw [(prepareChannel_of_ne hj).1]
    exact h.cached j

omit [Buses β] [Buses γ] hsame in
theorem mirrors_openFrame (h : Mirrors Same r s) : Mirrors Same r.openFrame s.openFrame := by
  obtain ⟨_, _, _⟩ := s
  obtain ⟨rfl, hbuses, rfl⟩ := h
  unfold openFrame
  dsimp only
  rw [show r.controller.closed.enabled = r.controller.enabled from rfl]
  split <;> exact ⟨rfl, hbuses, rfl⟩

omit [Buses β] [Buses γ] hsame in
theorem mirrors_closeFrame (h : Mirrors Same r s) (current : Option UInt8) :
    Mirrors Same (r.closeFrame current) (s.closeFrame current) := by
  obtain ⟨_, _, _⟩ := s
  obtain ⟨rfl, hbuses, rfl⟩ := h
  exact ⟨rfl, hbuses, rfl⟩

theorem inStep_beginFrame (h : InStep Same r s) : InStep Same r.beginFrame s.beginFrame := by
  have hopened : InStep Same r.openFrame s.openFrame := by
    refine ⟨mirrors_openFrame h.toMirrors, ?_⟩
    intro i
    rw [channel, controller_openFrame]
    exact h.cached i
  have hprepared : InStep Same ((List.finRange 8).foldl prepareChannel r.openFrame)
      ((List.finRange 8).foldl prepareChannel s.openFrame) :=
    (foldl_lockstep (P := InStep Same) (Q := fun _ _ => True) (R := fun _ _ => True)
      (f := prepareChannel) (g := prepareChannel)
      (fun h _ => ⟨inStep_prepareChannel hsame h _, trivial⟩) (fun _ => ⟨id, id⟩)
      (List.nodup_finRange 8) hopened fun _ _ => trivial).1
  refine ⟨?_, hprepared.cached⟩
  rw [beginFrame_eq, beginFrame_eq, h.activity]
  exact mirrors_closeFrame hprepared.toMirrors _

end Rig

end

end DmaController
