import DmaController.LineTransfer.Frame
import DmaController.Proofs.Rig

/-! # Turns of a line

A line transfer goes round its channels twice: first all of them send (`sendLine`), then all of
them step on (`stepLines`), and `closeLine` ends it.  What a channel does in its turn concerns that
channel alone: `Turn i r r'` says that the other channels, the sets of active and
enabled channels and the word left for a general transfer have stayed.  As every channel has one
turn in each round, a property of channel `i` behind a round can be read off its own turn
(`foldl_turn`), to which it comes as it was before the round.

`turns r m` lists the turns in which the channels of `m` send, each with the rig at its start. -/

namespace DmaController

theorem ChannelMask.nodup_toList (m : ChannelMask) : m.toList.Nodup :=
  (List.nodup_finRange 8).filter _

theorem ChannelMask.sorted_toList (m : ChannelMask) : m.toList.Pairwise (· < ·) := by
  have hall : (List.finRange 8).Pairwise (· < ·) := by decide
  exact hall.filter _

namespace Channel

/-- The channel when its unit, if it had one to send, lies behind. -/
def afterUnit (c : Channel) : Channel := if c.pending then c.passUnit else c

/-- The channel on the next line of its entry. -/
def nextLine (c : Channel) : Channel :=
  { c.afterUnit with pending := c.afterUnit.repeats, lines := c.afterUnit.lines - 1 }

/-- The channel with a header taken over, and behind it in the table. -/
def takeHeader (c : Channel) (lines : UInt8) (repeats : Bool) : Channel :=
  { c with repeats := repeats, lines := lines, table := c.table + 1, pending := true }

end Channel

namespace Rig

variable {β : Type}

/-- From `r` to `r'` nothing was said of which channels are to run and which ran. -/
structure Round (r r' : Rig β) : Prop where
  active : r'.controller.active = r.controller.active
  enabled : r'.controller.enabled = r.controller.enabled
  inTransfer : r'.controller.activity.inTransfer = r.controller.activity.inTransfer
  ranInside : r'.controller.activity.ranInside = r.controller.activity.ranInside

namespace Round

variable {r r' r'' : Rig β}

theorem refl (r : Rig β) : r.Round r := ⟨rfl, rfl, rfl, rfl⟩

theorem trans (h : r.Round r') (h' : r'.Round r'') : r.Round r'' :=
  ⟨h'.active.trans h.active, h'.enabled.trans h.enabled, h'.inTransfer.trans h.inTransfer,
    h'.ranInside.trans h.ranInside⟩

end Round

/-- From `r` to `r'` channel `i` has had its turn, and the others have not. -/
structure Turn (i : ChannelId) (r r' : Rig β) : Prop extends r.Round r' where
  channel : ∀ {j}, j ≠ i → r'.channel j = r.channel j

namespace Turn

variable {i : ChannelId} {r r' r'' : Rig β}

theorem of_keeps (h : r.Keeps r') : r.Turn i r' :=
  ⟨⟨h.active, h.enabled, h.inTransfer, h.ranInside⟩, fun _ => h.channel _⟩

theorem trans (h : r.Turn i r') (h' : r'.Turn i r'') : r.Turn i r'' :=
  ⟨h.toRound.trans h'.toRound, fun hj => (h'.channel hj).trans (h.channel hj)⟩

theorem setChannel (h : r.Turn i r') (c : Channel) : r.Turn i (r'.setChannel i c) := by
  refine ⟨h.toRound.trans ⟨rfl, rfl, rfl, rfl⟩, ?_⟩
  intro j hj
  rw [channel_setChannel, if_neg (Ne.symm hj)]
  exact h.channel hj

theorem modifyChannel (h : r.Turn i r') (f : Channel → Channel) :
    r.Turn i (r'.modifyChannel i f) := h.setChannel _

theorem refl (i : ChannelId) (r : Rig β) : r.Turn i r := of_keeps (.refl r)

theorem setCurrent (i j : ChannelId) (r : Rig β) : r.Turn i (r.setCurrent j) :=
  ⟨⟨rfl, rfl, rfl, rfl⟩, fun _ => rfl⟩

theorem markEnded (i j : ChannelId) (r : Rig β) : r.Turn i (r.markEnded j) :=
  ⟨⟨rfl, rfl, rfl, rfl⟩, fun _ => rfl⟩

end Turn

/-! ### Sending -/

theorem lt_size_of_mem_zipIdx {mode : UnitMode} {p : UInt8 × Nat}
    (hp : p ∈ mode.offsets.zipIdx) : p.2 < mode.size := by
  have := List.mem_zipIdx hp
  show p.2 < mode.offsets.length
  omega

/-- What every byte of a unit keeps, the unit keeps. -/
theorem forUnit_induction {P : Rig β → Prop} (mode : UnitMode) (step : Nat → UInt8 → Rig β → Rig β)
    (r : Rig β) (h : P r)
    (hstep : ∀ k o s, (o, k) ∈ mode.offsets.zipIdx → P s → P (step k o s)) :
    P (r.forUnit mode step) := by
  unfold forUnit
  generalize mode.offsets.zipIdx = l at hstep
  induction l generalizing r with
  | nil => exact h
  | cons p l ih =>
      exact ih _ (hstep p.2 p.1 r List.mem_cons_self h)
        (fun k o s hp => hstep k o s (List.mem_cons_of_mem p hp))

/-- What every byte of a unit has led to, the unit has led to, with the notes of the bytes in a
row. -/
theorem forUnit_run {γ : Type} {R : Rig β → Rig β → List γ → Prop} (hdone : ∀ r, R r r [])
    (htrans : ∀ {r r' r'' xs ys}, R r r' xs → R r' r'' ys → R r r'' (xs ++ ys))
    {mode : UnitMode} {step : Nat → UInt8 → Rig β → Rig β} {note : Nat → UInt8 → List γ}
    (hstep : ∀ k o r, k < mode.size → R r (step k o r) (note k o)) (r : Rig β) :
    R r (r.forUnit mode step) (mode.offsets.zipIdx.flatMap fun p => note p.2 p.1) := by
  have hk : ∀ p ∈ mode.offsets.zipIdx, p.2 < mode.size := fun _ => lt_size_of_mem_zipIdx
  unfold forUnit
  generalize mode.offsets.zipIdx = l at hk
  induction l generalizing r with
  | nil => exact hdone r
  | cons p l ih =>
      rw [List.foldl_cons, List.flatMap_cons]
      exact htrans (hstep p.2 p.1 r (hk p List.mem_cons_self))
        (ih _ fun q hq => hk q (List.mem_cons_of_mem p hq))

/-- Two ways to move the bytes of a unit that agree on each of them agree on the unit. -/
theorem forUnit_congr {mode : UnitMode} {step step' : Nat → UInt8 → Rig β → Rig β}
    (h : ∀ k o s, k < mode.size → step k o s = step' k o s) (r : Rig β) :
    r.forUnit mode step = r.forUnit mode step' := by
  have hk : ∀ p ∈ mode.offsets.zipIdx, p.2 < mode.size := fun _ => lt_size_of_mem_zipIdx
  unfold forUnit
  generalize mode.offsets.zipIdx = l at hk
  induction l generalizing r with
  | nil => rfl
  | cons p l ih =>
      rw [List.foldl_cons, List.foldl_cons, h p.2 p.1 r (hk p List.mem_cons_self)]
      exact ih _ (fun q hq => hk q (List.mem_cons_of_mem p hq))

variable [Buses β]

theorem keeps_collectUnit (c : Channel) (r : Rig β) : r.Keeps (r.collectUnit c) := by
  refine forUnit_induction (P := r.Keeps) _ _ _ (.refl r) ?_
  intro k o s _ h
  exact (h.setWorkRamTaken _).trans (.of_eq rfl)

theorem keeps_sendStraddling (c : Channel) (r : Rig β) : r.Keeps (r.sendStraddling c) := by
  refine forUnit_induction (P := r.Keeps) _ _ _ (.refl r) ?_
  intro k o s _ h
  exact (h.setWorkRamTaken _).trans (.of_eq rfl)

theorem keeps_sendMapped (c : Channel) (r : Rig β) : r.Keeps (r.sendMapped c) := by
  refine forUnit_induction (P := r.Keeps) _ _ _ (.refl r) ?_
  intro k o s _ h
  exact h.trans (.of_eq rfl)

theorem keeps_sendDirect (c : Channel) (p : Pointer) (r : Rig β) :
    r.Keeps (r.sendDirect c p) := by
  refine forUnit_induction (P := r.Keeps) _ _ _ (.refl r) ?_
  intro k o s _ h
  refine h.trans (.of_eq ?_)
  dsimp only
  split <;> rfl

/-- A unit for the sprite table sets the address of that table first, where that is asked for. -/
def pointSprites (c : Channel) (r : Rig β) : Rig β :=
  if c.port = 0x04 ∧ r.controller.settings.resetsSpriteAddress then
    r.modifyBuses (Buses.setSpriteAddress 0x10C)
  else r

theorem keeps_pointSprites (c : Channel) (r : Rig β) : r.Keeps (r.pointSprites c) := by
  unfold pointSprites
  split <;> exact .of_eq rfl

theorem sendUnit_eq (r : Rig β) (i : ChannelId) :
    r.sendUnit i =
      let c := (r.refreshCache i).channel i
      let s := (r.refreshCache i).pointSprites c
      if !c.pending then r.refreshCache i
      else if c.control.reverse then (s.setCache i none).collectUnit c
      else if c.unitReachesBlockEnd then (s.setCache i none).sendStraddling c
      else
        match c.cache with
        | none => (s.setWorkRamTaken (isWorkRam c.lineBank c.lineOffset)).sendMapped c
        | some p =>
            ((s.setWorkRamTaken (isWorkRam c.lineBank c.lineOffset)).sendDirect c p).setCache i
              (some (p.offset (UInt64.ofNat c.mode.size))) := rfl

/-- What a turn of sending does to its channel: no more than replace its direct access. -/
structure Recached (i : ChannelId) (r r' : Rig β) : Prop extends r.Turn i r' where
  own : ∃ p, r'.channel i = { r.channel i with cache := p }

/-- All channels are as they were but for their direct access. -/
def SameSetup (r r' : Rig β) : Prop := ∀ j, ∃ p, r'.channel j = { r.channel j with cache := p }

omit [Buses β] in
theorem SameSetup.refl (r : Rig β) : r.SameSetup r := fun j => ⟨(r.channel j).cache, rfl⟩

omit [Buses β] in
theorem SameSetup.trans {r r' r'' : Rig β} (h : r.SameSetup r') (h' : r'.SameSetup r'') :
    r.SameSetup r'' := by
  intro j
  obtain ⟨p, e⟩ := h j
  obtain ⟨q, e'⟩ := h' j
  exact ⟨q, by rw [e', e]⟩

namespace Recached

variable {i : ChannelId} {r r' r'' : Rig β}

omit [Buses β] in
theorem of_keeps (h : r.Keeps r') : r.Recached i r' :=
  ⟨.of_keeps h, (r.channel i).cache, h.channel i⟩

omit [Buses β] in
theorem trans (h : r.Recached i r') (h' : r'.Recached i r'') : r.Recached i r'' := by
  obtain ⟨p, e⟩ := h.own
  obtain ⟨q, e'⟩ := h'.own
  exact ⟨h.toTurn.trans h'.toTurn, q, by rw [e', e]⟩

omit [Buses β] in
theorem setCache (h : r.Recached i r') (p : Option Pointer) : r.Recached i (r'.setCache i p) := by
  refine h.trans ⟨(Turn.refl i r').modifyChannel _, p, ?_⟩
  rw [Rig.setCache, channel_modifyChannel, if_pos rfl]

omit [Buses β] in
theorem sameSetup (h : r.Recached i r') : r.SameSetup r' := by
  intro j
  by_cases hj : j = i
  · subst hj
    exact h.own
  · exact ⟨(r.channel j).cache, h.channel hj⟩

end Recached

theorem refreshCache_of_some {r : Rig β} {i : ChannelId} {p : Pointer}
    (h : (r.channel i).cache = some p) : r.refreshCache i = r := by
  unfold refreshCache
  simp only [h]

theorem refreshCache_of_none {r : Rig β} {i : ChannelId} (h : (r.channel i).cache = none) :
    r.refreshCache i =
      (r.bytePointer (.of (r.channel i).lineBank (r.channel i).lineOffset)).2.setChannel i
        { r.channel i with
          cache := (r.bytePointer (.of (r.channel i).lineBank (r.channel i).lineOffset)).1 } := by
  unfold refreshCache
  simp only [h]

theorem recached_refreshCache (r : Rig β) (i : ChannelId) : r.Recached i (r.refreshCache i) := by
  cases h : (r.channel i).cache with
  | some p =>
      rw [refreshCache_of_some h]
      exact .of_keeps (.refl r)
  | none =>
      rw [refreshCache_of_none h]
      have hr : r.Turn i
          (r.bytePointer (.of (r.channel i).lineBank (r.channel i).lineOffset)).2 :=
        .of_keeps (.of_eq rfl)
      generalize r.bytePointer _ = got at hr ⊢
      refine ⟨hr.setChannel _, got.1, ?_⟩
      rw [channel_setChannel, if_pos rfl]

theorem recached_sendUnit (r : Rig β) (i : ChannelId) : r.Recached i (r.sendUnit i) := by
  rw [sendUnit_eq]
  refine (r.recached_refreshCache i).trans ?_
  generalize r.refreshCache i = r
  generalize r.channel i = c
  have hs : r.Recached i (r.pointSprites c) := .of_keeps (r.keeps_pointSprites c)
  dsimp only
  by_cases hp : c.pending = true
  · rw [hp, Bool.not_true, if_neg Bool.false_ne_true]
    by_cases hr : c.control.reverse = true
    · rw [if_pos hr]
      exact (hs.setCache none).trans (.of_keeps (keeps_collectUnit c _))
    rw [if_neg hr]
    by_cases hb : c.unitReachesBlockEnd = true
    · rw [if_pos hb]
      exact (hs.setCache none).trans (.of_keeps (keeps_sendStraddling c _))
    rw [if_neg hb]
    have ht : r.Recached i ((r.pointSprites c).setWorkRamTaken
        (isWorkRam c.lineBank c.lineOffset)) :=
      hs.trans (.of_keeps ((Keeps.refl _).setWorkRamTaken _))
    cases c.cache with
    | none => exact ht.trans (.of_keeps (keeps_sendMapped c _))
    | some p => exact (ht.trans (.of_keeps (keeps_sendDirect c p _))).setCache _
  · rw [Bool.not_eq_true] at hp
    rw [hp, Bool.not_false, if_pos rfl]
    exact .of_keeps (.refl r)

theorem recached_sendInTurn (r : Rig β) (i : ChannelId) : r.Recached i (r.sendInTurn i) := by
  have h : r.Recached i ((r.setWorkRamTaken false).setCurrent i) :=
    Recached.trans (.of_keeps ((Keeps.refl r).setWorkRamTaken false))
      ⟨.setCurrent i i _, (r.channel i).cache, rfl⟩
  exact h.trans (recached_sendUnit _ i)

/-! ### Stepping on -/

theorem turn_endTable (r : Rig β) (i : ChannelId) (above : Bool) :
    r.Turn i (r.endTable i above) := by
  unfold endTable
  dsimp only
  split
  · generalize Address.of _ _ = a
    generalize (if above = true then 2 * slowAccess else slowAccess) = n
    have h : r.Turn i ((r.spend n).readWord a).2 := .of_keeps (.of_eq rfl)
    exact h.setChannel _
  · exact (Turn.refl i r).setChannel _

/-- Where the data of a new entry begins: an indirect channel fetches the offset. -/
def fetchPlace (r : Rig β) (c : Channel) : Channel × Rig β :=
  if c.control.indirect then
    let got := (r.spend (2 * slowAccess)).readWord (.of c.bank c.table)
    ({ c with count := got.1, table := c.table + 2 }, got.2)
  else (c, r)

theorem keeps_fetchPlace (r : Rig β) (c : Channel) : r.Keeps (r.fetchPlace c).2 := by
  unfold fetchPlace
  split
  · exact .of_eq rfl
  · exact .refl r

theorem openEntry_eq (r : Rig β) (i : ChannelId) (lines : UInt8) (repeats : Bool) :
    r.openEntry i lines repeats =
      let placed := r.fetchPlace ((r.channel i).takeHeader lines repeats)
      let got := placed.2.bytePointer (.of placed.1.lineBank placed.1.lineOffset)
      got.2.setChannel i { placed.1 with cache := got.1 } := rfl

theorem turn_openEntry (r : Rig β) (i : ChannelId) (lines : UInt8) (repeats : Bool) :
    r.Turn i (r.openEntry i lines repeats) := by
  rw [openEntry_eq]
  generalize (r.channel i).takeHeader lines repeats = c
  have h : r.Turn i (r.fetchPlace c).2 := .of_keeps (r.keeps_fetchPlace c)
  generalize r.fetchPlace c = placed at h
  dsimp only
  generalize Address.of _ _ = a
  have h' : placed.2.Turn i (placed.2.bytePointer a).2 := .of_keeps (.of_eq rfl)
  exact (h.trans h').setChannel _

theorem fetchHeader_eq (r : Rig β) (i : ChannelId) :
    r.fetchHeader i =
      let c := r.channel i
      let above := r.controller.active.anyAbove i
      let s := (r.read (.of c.bank c.table)).2.spend slowAccess
      match Header.ofByte (r.read (.of c.bank c.table)).1 with
      | .stop => (false, s.endTable i above)
      | .entry lines repeats => (true, s.openEntry i lines repeats) := rfl

theorem turn_fetchHeader (r : Rig β) (i : ChannelId) : r.Turn i (r.fetchHeader i).2 := by
  rw [fetchHeader_eq]
  dsimp only
  generalize Address.of _ _ = a
  have h : r.Turn i ((r.read a).2.spend slowAccess) := .of_keeps (.of_eq rfl)
  cases Header.ofByte (r.read a).1 with
  | stop => exact h.trans (turn_endTable _ i _)
  | entry lines repeats => exact h.trans (turn_openEntry _ i lines repeats)

/-- Fetching a header is no activity of its own. -/
theorem activity_fetchHeader (r : Rig β) (i : ChannelId) :
    (r.fetchHeader i).2.controller.activity = r.controller.activity := by
  rw [fetchHeader_eq]
  dsimp only
  generalize Address.of _ _ = a
  cases Header.ofByte (r.read a).1 with
  | stop =>
      unfold endTable
      dsimp only
      split <;> rfl
  | entry lines repeats =>
      dsimp only
      rw [openEntry_eq]
      unfold fetchPlace
      split <;> rfl

theorem stepLine_eq (running : ChannelMask) (r : Rig β) (i : ChannelId) :
    stepLine running r i =
      let s := r.modifyChannel i Channel.nextLine
      if (r.channel i).nextLine.lines = 0 then
        if (s.fetchHeader i).1 then (running, (s.fetchHeader i).2)
        else
          (running.erase i, ((s.fetchHeader i).2.markEnded i).modifyChannel i fun c =>
            { c with pending := false })
      else (running, s.spend slowAccess) := by
  have hc : (r.modifyChannel i Channel.nextLine).channel i = (r.channel i).nextLine := by
    rw [channel_modifyChannel, if_pos rfl]
  unfold stepLine
  dsimp only
  rw [← hc]
  rfl

theorem turn_stepLine (running : ChannelMask) (r : Rig β) (i : ChannelId) :
    r.Turn i (stepLine running r i).2 := by
  rw [stepLine_eq]
  have h : r.Turn i (r.modifyChannel i Channel.nextLine) := (Turn.refl i r).modifyChannel _
  have hf := h.trans (turn_fetchHeader _ i)
  dsimp only
  split
  · split
    · exact hf
    · exact (hf.trans (.markEnded i i _)).modifyChannel fun c => { c with pending := false }
  · exact h.trans (.of_keeps (.of_eq rfl))

/-- Stepping on may take the channel out of the running ones, and no other. -/
theorem mem_stepLine_of_ne {running : ChannelMask} {r : Rig β} {i j : ChannelId} (hj : j ≠ i) :
    j ∈ (stepLine running r i).1 ↔ j ∈ running := by
  rw [stepLine_eq]
  dsimp only
  split
  · split
    · rfl
    · simp [Ne.symm hj]
  · rfl

/-! ### A line -/

/-- The rig when the turns of a line begin. -/
def openLine (r : Rig β) (m : ChannelMask) : Rig β :=
  let r := r.modifyActivity fun a =>
    { a with inLine := true, busy := true, ranInside := if a.inTransfer then m else ∅ }
  r.spend r.controller.settings.syncDelay

/-- The first round: all channels send. -/
def sendLine (r : Rig β) (m : ChannelMask) : Rig β := m.toList.foldl sendInTurn (r.openLine m)

/-- The second round: all channels step on, and some leave the running ones. -/
def stepLines (r : Rig β) (m : ChannelMask) : ChannelMask × Rig β :=
  m.toList.foldl (fun s i => stepLine s.1 s.2 i) (m, r)

/-- The end of a line, whose record of activity was `before`. -/
def closeLine (before : Activity) (m running : ChannelMask) (r : Rig β) : Rig β :=
  let r := r.modifyActivity fun a => { a with inLine := false, busy := a.inTransfer }
  let r := r.setWorkRamTaken before.workRamTaken
  let r := r.modifyActivity fun a => { a with current := before.current }
  r.setActive (r.controller.active \ (m \ running))

theorem runLine_fst (r : Rig β) (m : ChannelMask) :
    (r.runLine m).1 = ((r.sendLine m).stepLines m).1 := by
  unfold runLine
  rfl

theorem runLine_snd (r : Rig β) (m : ChannelMask) :
    (r.runLine m).2 =
      ((r.sendLine m).stepLines m).2.closeLine r.controller.activity m (r.runLine m).1 := rfl

section

variable (r : Rig β) (before : Activity) (m running : ChannelMask)

theorem channel_closeLine (i : ChannelId) :
    (r.closeLine before m running).channel i = r.channel i := rfl

theorem buses_closeLine :
    (r.closeLine before m running).buses = Buses.setWorkRamTaken before.workRamTaken r.buses := rfl

theorem enabled_closeLine :
    (r.closeLine before m running).controller.enabled = r.controller.enabled := rfl

theorem active_closeLine :
    (r.closeLine before m running).controller.active =
      r.controller.active \ (m \ running) := rfl

theorem ended_closeLine :
    (r.closeLine before m running).controller.ended = r.controller.ended := rfl

theorem inTransfer_closeLine :
    (r.closeLine before m running).controller.activity.inTransfer =
      r.controller.activity.inTransfer := rfl

theorem ranInside_closeLine :
    (r.closeLine before m running).controller.activity.ranInside =
      r.controller.activity.ranInside := rfl

end

/-- What every turn of a round keeps, the round keeps. -/
theorem foldl_induction {σ : Type} {P : σ → Prop} {f : σ → ChannelId → σ} (l : List ChannelId)
    (hstep : ∀ s, ∀ i ∈ l, P s → P (f s i)) {s : σ} (h : P s) : P (l.foldl f s) := by
  induction l generalizing s with
  | nil => exact h
  | cons i l ih =>
      exact ih (fun s j hj => hstep s j (List.mem_cons_of_mem i hj))
        (hstep s i List.mem_cons_self h)

/-- The turns of a round, each with the state at its start. -/
def turnsOf {σ : Type} (f : σ → ChannelId → σ) : List ChannelId → σ → List (σ × ChannelId)
  | [], _ => []
  | i :: l, s => (s, i) :: turnsOf f l (f s i)

/-- The turns of channel `i` among those of a round. -/
def turnsFor {σ : Type} (f : σ → ChannelId → σ) (l : List ChannelId) (s : σ) (i : ChannelId) :
    List (σ × ChannelId) :=
  (turnsOf f l s).filter fun turn => turn.2 = i

theorem turnsFor_of_notMem {σ : Type} {f : σ → ChannelId → σ} {l : List ChannelId} {s : σ}
    {i : ChannelId} (hi : i ∉ l) : turnsFor f l s i = [] := by
  induction l generalizing s with
  | nil => rfl
  | cons j l ih =>
      obtain ⟨hj, hl⟩ : i ≠ j ∧ i ∉ l := by simpa using hi
      rw [turnsFor, turnsOf, List.filter_cons_of_neg (by simpa using Ne.symm hj)]
      exact ih hl

/-- Channel `i` has one turn in a round.  It comes to it as it was, seen through `v`, and what
the round leaves of it is what its own turn has left. -/
theorem foldl_turn {σ γ : Type} {P : σ → Prop} {f : σ → ChannelId → σ} {v : σ → γ}
    {i : ChannelId} {l : List ChannelId} (hl : l.Nodup) (hi : i ∈ l)
    (hstep : ∀ s, ∀ j ∈ l, P s → P (f s j))
    (hview : ∀ s, ∀ j ∈ l, j ≠ i → P s → v (f s j) = v s) {s : σ} (h : P s) :
    ∃ s', turnsFor f l s i = [(s', i)] ∧ P s' ∧ v s' = v s ∧
      v (l.foldl f s) = v (f s' i) := by
  induction l generalizing s with
  | nil => cases hi
  | cons j l ih =>
      have hmem : ∀ {k}, k ∈ l → k ∈ j :: l := List.mem_cons_of_mem j
      obtain ⟨hj, hl'⟩ := List.nodup_cons.mp hl
      have hs := hstep s j List.mem_cons_self h
      by_cases hji : j = i
      · -- The turn of channel `i`; those behind it are the turns of others.
        subst hji
        refine ⟨s, ?_, h, rfl, ?_⟩
        · rw [turnsFor, turnsOf, List.filter_cons_of_pos (by simp)]
          exact congrArg _ (turnsFor_of_notMem hj)
        · have hrest : P (l.foldl f (f s j)) ∧ v (l.foldl f (f s j)) = v (f s j) := by
            refine foldl_induction (P := fun s' => P s' ∧ v s' = v (f s j)) l ?_ ⟨hs, rfl⟩
            intro s' k hk hs'
            have hkj : k ≠ j := fun e => hj (e ▸ hk)
            exact ⟨hstep s' k (hmem hk) hs'.1, (hview s' k (hmem hk) hkj hs'.1).trans hs'.2⟩
          exact hrest.2
      · have hil : i ∈ l := (List.mem_cons.mp hi).resolve_left (Ne.symm hji)
        obtain ⟨s', hturns, hs', hsame, hown⟩ := ih hl' hil (fun s' k hk => hstep s' k (hmem hk))
          (fun s' k hk => hview s' k (hmem hk)) hs
        refine ⟨s', ?_, hs', hsame.trans (hview s j List.mem_cons_self hji h), hown⟩
        rw [turnsFor, turnsOf, List.filter_cons_of_neg (by simpa using hji)]
        exact hturns

/-- The turns in which the channels of a line send, each with the rig at its start. -/
def turns (r : Rig β) (m : ChannelMask) : List (Rig β × ChannelId) :=
  turnsOf sendInTurn m.toList (r.openLine m)

/-- The turns come in the order of the round. -/
theorem map_turnsOf {σ : Type} (f : σ → ChannelId → σ) (l : List ChannelId) (s : σ) :
    (turnsOf f l s).map Prod.snd = l := by
  induction l generalizing s with
  | nil => rfl
  | cons i l ih => rw [turnsOf, List.map_cons, ih]

theorem mem_of_mem_turnsOf {σ : Type} {f : σ → ChannelId → σ} {l : List ChannelId} {s : σ}
    {turn : σ × ChannelId} (h : turn ∈ turnsOf f l s) : turn.2 ∈ l := by
  have hmem := List.mem_map_of_mem (f := Prod.snd) h
  rwa [map_turnsOf] at hmem

/-- What every turn keeps for which `Q` is true, a round keeps whose turns all have `Q`, and it is
true at the start of each of them. -/
theorem foldl_turnsOf {σ : Type} {f : σ → ChannelId → σ} {P : σ → Prop} {Q : σ × ChannelId → Prop}
    (hstep : ∀ s i, P s → Q (s, i) → P (f s i)) (l : List ChannelId) {s : σ} (h : P s)
    (hQ : ∀ turn ∈ turnsOf f l s, Q turn) :
    P (l.foldl f s) ∧ ∀ turn ∈ turnsOf f l s, P turn.1 := by
  induction l generalizing s with
  | nil => exact ⟨h, fun _ ht => by cases ht⟩
  | cons i l ih =>
      have hs := hstep s i h (hQ (s, i) List.mem_cons_self)
      obtain ⟨hlast, hturns⟩ := ih hs fun turn ht => hQ turn (List.mem_cons_of_mem _ ht)
      refine ⟨hlast, ?_⟩
      intro turn ht
      rcases List.mem_cons.mp ht with rfl | ht
      · exact h
      · exact hturns turn ht

/-- What every turn has led to, a round has led to, with the notes of the turns in a row. -/
theorem foldl_run {σ γ : Type} {R : σ → σ → List γ → Prop} (hdone : ∀ s, R s s [])
    (htrans : ∀ {s s' s'' xs ys}, R s s' xs → R s' s'' ys → R s s'' (xs ++ ys))
    {f : σ → ChannelId → σ} {note : σ × ChannelId → List γ} (l : List ChannelId) {s : σ}
    (hturns : ∀ turn ∈ turnsOf f l s, R turn.1 (f turn.1 turn.2) (note turn)) :
    R s (l.foldl f s) ((turnsOf f l s).flatMap note) := by
  induction l generalizing s with
  | nil => exact hdone s
  | cons i l ih =>
      obtain ⟨hfirst, hrest⟩ := List.forall_mem_cons.mp hturns
      rw [List.foldl_cons, turnsOf, List.flatMap_cons]
      exact htrans hfirst (ih hrest)

/-- A channel comes to its turn as it was before the line. -/
theorem channel_of_mem_turns {r : Rig β} {m : ChannelMask} {turn : Rig β × ChannelId}
    (h : turn ∈ r.turns m) : turn.2 ∈ m ∧ turn.1.channel turn.2 = r.channel turn.2 := by
  have hm := mem_of_mem_turnsOf h
  obtain ⟨s, hturns, -, hsame, -⟩ := foldl_turn (P := fun _ => True) (f := sendInTurn)
    (v := fun s : Rig β => s.channel turn.2) m.nodup_toList hm (fun _ _ _ _ => trivial)
    (fun s j _ hj _ => (recached_sendInTurn s j).channel (Ne.symm hj)) (s := r.openLine m) trivial
  have hturn : turn ∈ turnsFor sendInTurn m.toList (r.openLine m) turn.2 :=
    List.mem_filter.mpr ⟨h, by simp⟩
  rw [hturns, List.mem_singleton] at hturn
  refine ⟨ChannelMask.mem_toList.mp hm, ?_⟩
  rw [hturn] at hsame ⊢
  exact hsame

/-- What is said of the channels in their turns is said of them as they were before the line. -/
theorem turns_flatMap {γ : Type} (r : Rig β) (m : ChannelMask) (note : Channel → List γ) :
    (r.turns m).flatMap (fun turn => note (turn.1.channel turn.2)) =
      m.toList.flatMap fun i => note (r.channel i) := by
  have hsame : ∀ turn ∈ r.turns m,
      note (turn.1.channel turn.2) = note (r.channel turn.2) := fun turn hturn => by
    rw [(channel_of_mem_turns hturn).2]
  have horder : (r.turns m).map Prod.snd = m.toList := map_turnsOf _ _ _
  rw [List.flatMap_def, List.map_congr_left hsame, ← horder, List.flatMap_map, List.flatMap_def]

theorem round_sendLine (r : Rig β) (m : ChannelMask) : (r.openLine m).Round (r.sendLine m) :=
  foldl_induction _
    (fun s i _ h => h.trans (recached_sendInTurn s i).toRound) (.refl _)

theorem round_stepLines (r : Rig β) (m : ChannelMask) : r.Round (r.stepLines m).2 :=
  foldl_induction (P := fun s : ChannelMask × Rig β => r.Round s.2) _
    (fun s i _ h => h.trans (turn_stepLine s.1 s.2 i).toRound) (.refl _)

theorem round_line (r : Rig β) (m : ChannelMask) :
    (r.openLine m).Round ((r.sendLine m).stepLines m).2 :=
  (r.round_sendLine m).trans (round_stepLines _ m)

@[simp] theorem enabled_runLine (r : Rig β) (m : ChannelMask) :
    (r.runLine m).2.controller.enabled = r.controller.enabled := by
  rw [runLine_snd, enabled_closeLine, (r.round_line m).enabled]
  rfl

@[simp] theorem inTransfer_runLine (r : Rig β) (m : ChannelMask) :
    (r.runLine m).2.controller.activity.inTransfer = r.controller.activity.inTransfer := by
  rw [runLine_snd, inTransfer_closeLine, (r.round_line m).inTransfer]
  rfl

/-- A line leaves its channels behind for a general transfer, if one is running. -/
@[simp] theorem ranInside_runLine (r : Rig β) (m : ChannelMask) :
    (r.runLine m).2.controller.activity.ranInside =
      if r.controller.activity.inTransfer then m else ∅ := by
  rw [runLine_snd, ranInside_closeLine, (r.round_line m).ranInside]
  rfl

@[simp] theorem active_runLine (r : Rig β) (m : ChannelMask) :
    (r.runLine m).2.controller.active = r.controller.active \ (m \ (r.runLine m).1) := by
  rw [runLine_snd, active_closeLine, (r.round_line m).active]
  rfl

/-- A line says again what was said about work RAM before it. -/
@[simp] theorem workRamTaken_runLine (r : Rig β) (m : ChannelMask) :
    (r.runLine m).2.controller.activity.workRamTaken = r.controller.activity.workRamTaken := rfl

/-- Channel `i` comes to its turn of stepping on as its turn of sending has left it, and among the
running ones; the line leaves it as this turn has left it. -/
theorem runLine_turn (r : Rig β) {m : ChannelMask} {i : ChannelId} (hi : i ∈ m) :
    ∃ (running : ChannelMask) (s : Rig β), i ∈ running ∧
      s.channel i = (r.sendLine m).channel i ∧
      (r.runLine m).2.channel i = (stepLine running s i).2.channel i ∧
      (i ∈ (r.runLine m).1 ↔ i ∈ (stepLine running s i).1) := by
  obtain ⟨⟨running, s⟩, -, -, hsame, hown⟩ := foldl_turn (P := fun _ => True)
    (f := fun s j => stepLine s.1 s.2 j)
    (v := fun s : ChannelMask × Rig β => (s.2.channel i, decide (i ∈ s.1))) m.nodup_toList
    (ChannelMask.mem_toList.mpr hi) (fun _ _ _ _ => trivial)
    (fun s j _ hj _ => by
      rw [(turn_stepLine s.1 s.2 j).channel (Ne.symm hj),
        decide_eq_decide.mpr (mem_stepLine_of_ne (Ne.symm hj))])
    (s := (m, r.sendLine m)) trivial
  obtain ⟨hchannel, hrunning⟩ := Prod.mk.inj hsame
  obtain ⟨hchannel', hrunning'⟩ := Prod.mk.inj hown
  refine ⟨running, s, (decide_eq_decide.mp hrunning).mpr hi, hchannel, ?_, ?_⟩
  · rw [runLine_snd, channel_closeLine]
    exact hchannel'
  · rw [runLine_fst]
    exact decide_eq_decide.mp hrunning'

/-- A line leaves the channels alone that it is not given. -/
theorem channel_runLine_of_notMem {r : Rig β} {m : ChannelMask} {i : ChannelId} (hi : i ∉ m) :
    (r.runLine m).2.channel i = r.channel i := by
  have hne : ∀ {j}, j ∈ m.toList → i ≠ j :=
    fun hj e => hi (e ▸ ChannelMask.mem_toList.mp hj)
  have hsent : (r.sendLine m).channel i = r.channel i :=
    foldl_induction (P := fun s : Rig β => s.channel i = r.channel i) _
      (fun s j hj h => ((recached_sendInTurn s j).channel (hne hj)).trans h) rfl
  rw [runLine_snd, channel_closeLine]
  exact foldl_induction (P := fun s : ChannelMask × Rig β => s.2.channel i = r.channel i) _
    (fun s j hj h => ((turn_stepLine s.1 s.2 j).channel (hne hj)).trans h)
    (s := (m, r.sendLine m)) hsent

/-! ### A frame -/

/-- The rewinding of a channel, before its first header is fetched. -/
def rewound (r : Rig β) (i : ChannelId) : Rig β :=
  (r.setCurrent i).modifyChannel i fun c => { c with table := c.address }

theorem prepareChannel_of_mem {r : Rig β} {i : ChannelId} (hi : i ∈ r.controller.active) :
    r.prepareChannel i =
      let fetched := (r.rewound i).fetchHeader i
      if fetched.1 then fetched.2
      else (fetched.2.setActive (fetched.2.controller.active.erase i)).markEnded i := by
  rw [prepareChannel, if_pos hi]
  rfl

theorem prepareChannel_of_notMem {r : Rig β} {i : ChannelId} (hi : i ∉ r.controller.active) :
    r.prepareChannel i = r.modifyChannel i fun c => { c with pending := false } := by
  rw [prepareChannel, if_neg hi]

omit [Buses β] in
theorem turn_rewound (r : Rig β) (i : ChannelId) : r.Turn i (r.rewound i) :=
  (Turn.setCurrent i i r).modifyChannel _

/-- Preparing a channel leaves the others alone, and whether they are active. -/
theorem prepareChannel_of_ne {r : Rig β} {i j : ChannelId} (hj : j ≠ i) :
    (r.prepareChannel i).channel j = r.channel j ∧
      (j ∈ (r.prepareChannel i).controller.active ↔ j ∈ r.controller.active) := by
  by_cases hi : i ∈ r.controller.active
  · have h := (r.turn_rewound i).trans (turn_fetchHeader _ i)
    rw [prepareChannel_of_mem hi]
    dsimp only
    generalize (r.rewound i).fetchHeader i = fetched at h ⊢
    split
    · rw [h.active]
      exact ⟨h.channel hj, Iff.rfl⟩
    · refine ⟨h.channel hj, ?_⟩
      show j ∈ fetched.2.controller.active.erase i ↔ _
      rw [h.active, ChannelMask.mem_erase]
      exact ⟨fun h => h.1, fun h => ⟨h, Ne.symm hj⟩⟩
  · rw [prepareChannel_of_notMem hi]
    exact ⟨((Turn.refl i r).modifyChannel _).channel hj, Iff.rfl⟩

/-- Preparing a channel may make it inactive, and says nothing else of which are to run. -/
theorem prepareChannel_keeps (r : Rig β) (i : ChannelId) :
    (r.prepareChannel i).controller.activity.inTransfer = r.controller.activity.inTransfer ∧
      (r.prepareChannel i).controller.enabled = r.controller.enabled ∧
      ∀ j, j ∈ (r.prepareChannel i).controller.active → j ∈ r.controller.active := by
  by_cases hi : i ∈ r.controller.active
  · have h := (r.turn_rewound i).trans (turn_fetchHeader _ i)
    rw [prepareChannel_of_mem hi]
    dsimp only
    generalize (r.rewound i).fetchHeader i = fetched at h ⊢
    split
    · exact ⟨h.inTransfer, h.enabled, fun j hj => h.active ▸ hj⟩
    · refine ⟨h.inTransfer, h.enabled, ?_⟩
      intro j hj
      change j ∈ fetched.2.controller.active.erase i at hj
      rw [h.active, ChannelMask.mem_erase] at hj
      exact hj.1
  · rw [prepareChannel_of_notMem hi]
    exact ⟨rfl, rfl, fun _ hj => hj⟩

omit [Buses β] in
theorem channel_rewound (r : Rig β) (i : ChannelId) :
    (r.rewound i).channel i = { r.channel i with table := (r.channel i).address } := by
  rw [rewound, channel_modifyChannel, if_pos rfl]
  rfl

/-- The rig when the channels of a frame are to be prepared. -/
def openFrame (r : Rig β) : Rig β :=
  let enabled := r.controller.enabled
  let r := { r with controller := { r.controller with active := enabled, ended := ∅ } }
  let r := r.modifyActivity fun a => { a with inLine := true, busy := true }
  if enabled = ∅ then r else r.spend r.controller.settings.syncDelay

/-- The end of a frame's preparation, before which `current` was at work. -/
def closeFrame (current : Option UInt8) (r : Rig β) : Rig β :=
  r.modifyActivity fun a =>
    { a with
      inLine := false
      busy := a.inTransfer
      current := current
      ranInside := if a.inTransfer then r.controller.active else ∅ }

theorem beginFrame_eq (r : Rig β) :
    r.beginFrame = ((List.finRange 8).foldl prepareChannel r.openFrame).closeFrame
      r.controller.activity.current := rfl

omit [Buses β] in
theorem buses_openFrame (r : Rig β) : r.openFrame.buses = r.buses := by
  unfold openFrame
  dsimp only
  split <;> rfl

omit [Buses β] in
theorem controller_openFrame (r : Rig β) :
    r.openFrame.controller =
      { r.controller with
        active := r.controller.enabled
        ended := ∅
        activity := { r.controller.activity with inLine := true, busy := true } } := by
  unfold openFrame
  dsimp only
  split <;> rfl

/-- Channel `i` comes to its turn in a frame as it was, active if it is enabled, and the frame
leaves it as its turn has left it. -/
theorem beginFrame_turn {P : Rig β → Prop} (hstep : ∀ s j, P s → P (s.prepareChannel j))
    {r : Rig β} (h : P r.openFrame) (i : ChannelId) :
    ∃ s, P s ∧ s.channel i = r.channel i ∧
      (i ∈ s.controller.active ↔ i ∈ r.controller.enabled) ∧
      r.beginFrame.channel i = (s.prepareChannel i).channel i ∧
      (i ∈ r.beginFrame.controller.active ↔ i ∈ (s.prepareChannel i).controller.active) := by
  obtain ⟨s, -, hP, hsame, hown⟩ := foldl_turn
    (v := fun s : Rig β => (s.channel i, decide (i ∈ s.controller.active)))
    (List.nodup_finRange 8) (List.mem_finRange i) (fun s j _ => hstep s j)
    (fun s j _ hj _ => by
      obtain ⟨hchannel, hactive⟩ := prepareChannel_of_ne (r := s) (Ne.symm hj)
      rw [hchannel, decide_eq_decide.mpr hactive])
    h
  obtain ⟨hchannel, hactive⟩ := Prod.mk.inj hsame
  obtain ⟨hchannel', hactive'⟩ := Prod.mk.inj hown
  refine ⟨s, hP, ?_, ?_, hchannel', decide_eq_decide.mp hactive'⟩
  · rw [hchannel, channel, controller_openFrame]
    rfl
  · rw [decide_eq_decide.mp hactive, controller_openFrame]

/-- A frame leaves the channels that are active from its start on behind for a general transfer,
if one is running. -/
theorem ranInside_beginFrame (r : Rig β) :
    r.beginFrame.controller.activity.ranInside =
      if r.beginFrame.controller.activity.inTransfer then r.beginFrame.controller.active else ∅ :=
  rfl

@[simp] theorem inTransfer_beginFrame (r : Rig β) :
    r.beginFrame.controller.activity.inTransfer = r.controller.activity.inTransfer := by
  refine foldl_induction
    (P := fun s : Rig β => s.controller.activity.inTransfer = r.controller.activity.inTransfer) _
    (fun s i _ h => (s.prepareChannel_keeps i).1.trans h) (s := r.openFrame) ?_
  rw [controller_openFrame]

@[simp] theorem enabled_beginFrame (r : Rig β) :
    r.beginFrame.controller.enabled = r.controller.enabled := by
  refine foldl_induction (P := fun s : Rig β => s.controller.enabled = r.controller.enabled) _
    (fun s i _ h => (s.prepareChannel_keeps i).2.1.trans h) (s := r.openFrame) ?_
  rw [controller_openFrame]

@[simp] theorem workRamTaken_prepareChannel (r : Rig β) (i : ChannelId) :
    (r.prepareChannel i).controller.activity.workRamTaken =
      r.controller.activity.workRamTaken := by
  by_cases hi : i ∈ r.controller.active
  · have hfetched := activity_fetchHeader (r.rewound i) i
    rw [prepareChannel_of_mem hi]
    dsimp only
    generalize (r.rewound i).fetchHeader i = fetched at hfetched ⊢
    have hsaid : fetched.2.controller.activity.workRamTaken =
        r.controller.activity.workRamTaken :=
      (congrArg Activity.workRamTaken hfetched).trans rfl
    split <;> exact hsaid
  · rw [prepareChannel_of_notMem hi]
    rfl

@[simp] theorem workRamTaken_beginFrame (r : Rig β) :
    r.beginFrame.controller.activity.workRamTaken = r.controller.activity.workRamTaken := by
  refine foldl_induction (P := fun s : Rig β =>
    s.controller.activity.workRamTaken = r.controller.activity.workRamTaken) _
    (fun s i _ h => (s.workRamTaken_prepareChannel i).trans h) (s := r.openFrame) ?_
  rw [controller_openFrame]

/-- A frame takes away the pending unit of a channel that is not enabled, and no more. -/
theorem channel_beginFrame_of_notMem {r : Rig β} {i : ChannelId} (hi : i ∉ r.controller.enabled) :
    r.beginFrame.channel i = { r.channel i with pending := false } := by
  obtain ⟨s, -, hchannel, hactive, hlast, -⟩ :=
    beginFrame_turn (P := fun _ => True) (fun _ _ _ => trivial) (r := r) trivial i
  rw [hlast, prepareChannel_of_notMem (hi ∘ hactive.mp), channel_modifyChannel, if_pos rfl,
    hchannel]

/-- A frame makes no channel active that is not enabled. -/
theorem enabled_of_mem_beginFrame {r : Rig β} {i : ChannelId}
    (hi : i ∈ r.beginFrame.controller.active) : i ∈ r.controller.enabled := by
  refine foldl_induction
    (P := fun s : Rig β => i ∈ s.controller.active → i ∈ r.controller.enabled) _
    (fun s j _ h hs => h ((s.prepareChannel_keeps j).2.2 i hs)) (s := r.openFrame) ?_ hi
  rw [controller_openFrame]
  exact id

/-! ### The record of activity -/

/-- A line puts the record of activity back, and leaves word for a general transfer. -/
theorem activity_runLine (r : Rig β) (m : ChannelMask) :
    (r.runLine m).2.controller.activity =
      { r.controller.activity with
        inLine := false
        busy := r.controller.activity.inTransfer
        ranInside := if r.controller.activity.inTransfer then m else ∅ } := by
  have hround := r.round_line m
  rw [runLine_snd]
  generalize ((r.sendLine m).stepLines m).2 = s at hround ⊢
  show Activity.mk s.controller.activity.inTransfer false s.controller.activity.inTransfer
    r.controller.activity.workRamTaken r.controller.activity.current
    s.controller.activity.ranInside = _
  rw [hround.inTransfer, hround.ranInside]
  rfl

/-- So does a frame. -/
theorem activity_beginFrame (r : Rig β) :
    r.beginFrame.controller.activity =
      { r.controller.activity with
        inLine := false
        busy := r.controller.activity.inTransfer
        ranInside :=
          if r.controller.activity.inTransfer then r.beginFrame.controller.active else ∅ } := by
  have hinTransfer := r.inTransfer_beginFrame
  have htaken := r.workRamTaken_beginFrame
  show Activity.mk r.beginFrame.controller.activity.inTransfer false
    r.beginFrame.controller.activity.inTransfer r.beginFrame.controller.activity.workRamTaken
    r.controller.activity.current
    (if r.beginFrame.controller.activity.inTransfer then r.beginFrame.controller.active else ∅) = _
  rw [hinTransfer, htaken]

/-! ### A rig at rest -/

/-- Lines and frames leave no word behind unless a general transfer is running. -/
theorem resting_runLine {r : Rig β} (h : r.Resting) (m : ChannelMask) :
    (r.runLine m).2.Resting := by
  constructor
  · rw [inTransfer_runLine]
    exact h.inTransfer
  · rw [ranInside_runLine, h.inTransfer, if_neg Bool.false_ne_true]

theorem resting_beginFrame {r : Rig β} (h : r.Resting) : r.beginFrame.Resting := by
  constructor
  · rw [inTransfer_beginFrame]
    exact h.inTransfer
  · rw [ranInside_beginFrame, inTransfer_beginFrame, h.inTransfer, if_neg Bool.false_ne_true]

end Rig

end DmaController
