import DmaController.Proofs.LineTransfer.Requests
import DmaController.Proofs.Logged

/-! # Turns in front of a still memory

A memory stands still behind some buses if looking at it, in whichever way, gives the same answer
at any time: reading changes nothing that is read later, and neither does writing to registers.
`Still view good` says so of all states with `good`, with the answers in `view`.

What a channel does in its two turns of a line is then a matter of the channel itself.  Its turn of
sending tells the buses `Channel.turnCalls` and leaves `Channel.sent`; its turn of stepping on tells
them nothing and leaves `Channel.stepped`, where one bit from outside comes in, whether a channel
with a higher number is active.  `sendInTurn_still` and `stepLine_still` say that this is so, and
`Lines` puts the turns of a whole line together. -/

namespace DmaController

/-- What there is to be seen of a memory. -/
structure MemoryView where
  byte : Address → UInt8
  word : Address → UInt16
  pointer : Address → Option Pointer
  direct : Pointer → UInt8

/-- Whatever is looked at is as `view` has it, and neither looking nor writing to registers changes
that. -/
structure Still {β : Type} [Buses β] (view : MemoryView) (good : β → Prop) : Prop where
  read : ∀ {b : β} (a : Address), good b →
    (Buses.read a b).1 = view.byte a ∧ good (Buses.read a b).2
  readWord : ∀ {b : β} (a : Address), good b →
    (Buses.readWord a b).1 = view.word a ∧ good (Buses.readWord a b).2
  bytePointer : ∀ {b : β} (a : Address), good b →
    (Buses.bytePointer a b).1 = view.pointer a ∧ good (Buses.bytePointer a b).2
  peek : ∀ {b : β} (p : Pointer), good b →
    (Buses.peek p b).1 = view.direct p ∧ good (Buses.peek p b).2
  writeRegister : ∀ {b : β} (a : UInt16) (v : UInt8), good b → good (Buses.writeRegister a v b)
  setOpenBus : ∀ {b : β} (v : UInt8), good b → good (Buses.setOpenBus v b)
  setWorkRamTaken : ∀ {b : β} (taken : Bool), good b → good (Buses.setWorkRamTaken taken b)
  setSpriteAddress : ∀ {b : β} (a : UInt16), good b → good (Buses.setSpriteAddress a b)

/-- A log in front of a still memory changes nothing about it. -/
theorem Still.logged {β : Type} [Buses β] {view : MemoryView} {good : β → Prop}
    (hs : Still view good) : Still view fun t : Logged β => good t.inner where
  read a := hs.read a
  readWord a := hs.readWord a
  bytePointer a := hs.bytePointer a
  peek p := hs.peek p
  writeRegister a v := hs.writeRegister a v
  setOpenBus v := hs.setOpenBus v
  setWorkRamTaken taken := hs.setWorkRamTaken taken
  setSpriteAddress a := hs.setSpriteAddress a

/-! ### What a channel does -/

namespace Channel

variable (view : MemoryView)

/-- The channel with direct access to its next unit, if it can be had. -/
def refreshed (c : Channel) : Channel :=
  match c.cache with
  | some _ => c
  | none => { c with cache := view.pointer (.of c.lineBank c.lineOffset) }

/-- What is left of direct access when a unit was sent. -/
def cacheBehind (c : Channel) : Option Pointer :=
  if c.unitReachesBlockEnd then none
  else c.cache.map fun p => p.offset (UInt64.ofNat c.mode.size)

/-- The channel when its turn of sending is over. -/
def sent (c : Channel) : Channel :=
  let c := c.refreshed view
  if c.pending then { c with cache := c.cacheBehind } else c

/-- The byte of a unit that lies inside a block, by its number. -/
def unitByte (c : Channel) (k : Nat) : UInt8 :=
  match c.cache with
  | none => view.byte (Address.of c.lineBank c.lineOffset + UInt32.ofNat k)
  | some p => view.direct (p.offset (UInt64.ofNat k))

/-- What is said and written for a byte of a unit that reaches the end of its block. -/
def straddlingCalls (c : Channel) (k : Nat) (offset : UInt8) : List BusCall :=
  let a := c.lineOffset + UInt16.ofNat k
  let taken := isWorkRam c.lineBank a
  [.setWorkRamTaken taken, .writeRegister (c.register offset) (view.byte (.of c.lineBank a)) taken]

/-- What is written for a byte of a unit that lies inside a block. -/
def insideCalls (c : Channel) (k : Nat) (offset : UInt8) : List BusCall :=
  [.writeRegister (c.register offset) (c.unitByte view k) (isWorkRam c.lineBank c.lineOffset)]

/-- What is said and written as a unit goes out. -/
def unitCalls (c : Channel) : List BusCall :=
  if c.unitReachesBlockEnd then
    c.mode.offsets.zipIdx.flatMap fun p => c.straddlingCalls view p.2 p.1
  else
    .setWorkRamTaken (isWorkRam c.lineBank c.lineOffset) ::
      c.mode.offsets.zipIdx.flatMap fun p => c.insideCalls view p.2 p.1

/-- What is said and written in a turn of sending; `resets` says whether the settings ask for the
sprite table to be pointed at. -/
def turnCalls (resets : Bool) (c : Channel) : List BusCall :=
  let c := c.refreshed view
  .setWorkRamTaken false ::
    if c.pending then
      (if c.port = 0x04 ∧ resets then [.setSpriteAddress 0x10C] else []) ++ c.unitCalls view
    else []

/-- The channel when its table has ended. -/
def atEnd (above : Bool) (c : Channel) : Channel :=
  let c := { c with repeats := false, lines := 128, cache := none }
  if c.control.indirect then
    let word := if above then c.table + 1 else c.table
    { c with count := view.word (.of c.bank word), table := word + 2 }
  else { c with table := c.table + 1 }

/-- The channel at the start of an entry, behind its header. -/
def opened (lines : UInt8) (repeats : Bool) (c : Channel) : Channel :=
  let c := c.takeHeader lines repeats
  let c :=
    if c.control.indirect then
      { c with count := view.word (.of c.bank c.table), table := c.table + 2 }
    else c
  { c with cache := view.pointer (.of c.lineBank c.lineOffset) }

/-- The channel behind a header, and whether there was an entry. -/
def fetched (above : Bool) (c : Channel) : Bool × Channel :=
  match Header.ofByte (view.byte (.of c.bank c.table)) with
  | .stop => (false, c.atEnd view above)
  | .entry lines repeats => (true, c.opened view lines repeats)

/-- The channel when its turn of stepping on is over, and whether it goes on. -/
def stepped (above : Bool) (c : Channel) : Bool × Channel :=
  let c := c.nextLine
  if c.lines = 0 then
    let got := c.fetched view above
    if got.1 then (true, got.2) else (false, { got.2 with pending := false })
  else (true, c)

end Channel

namespace Rig

/-! ### Stepping on -/

section

variable {β : Type} [Buses β] {view : MemoryView} {good : β → Prop} (hs : Still view good)

include hs

theorem endTable_still {r : Rig β} (hg : good r.buses) (i : ChannelId) (above : Bool) :
    (r.endTable i above).channel i = (r.channel i).atEnd view above ∧
      good (r.endTable i above).buses := by
  unfold endTable Channel.atEnd
  dsimp only
  by_cases hindirect : (r.channel i).control.indirect = true
  · rw [if_pos hindirect, if_pos hindirect, channel_setChannel, if_pos rfl]
    obtain ⟨hword, hgood⟩ := hs.readWord
      (.of (r.channel i).bank (if above then (r.channel i).table + 1 else (r.channel i).table)) hg
    exact ⟨by rw [← hword]; rfl, hgood⟩
  · rw [if_neg hindirect, if_neg hindirect, channel_setChannel, if_pos rfl]
    exact ⟨rfl, hg⟩

theorem openEntry_still {r : Rig β} (hg : good r.buses) (i : ChannelId) (lines : UInt8)
    (repeats : Bool) :
    (r.openEntry i lines repeats).channel i = (r.channel i).opened view lines repeats ∧
      good (r.openEntry i lines repeats).buses := by
  rw [openEntry_eq, Channel.opened]
  generalize (r.channel i).takeHeader lines repeats = c
  have hplaced : (r.fetchPlace c).1 =
        (if c.control.indirect then
          { c with count := view.word (.of c.bank c.table), table := c.table + 2 } else c) ∧
      good (r.fetchPlace c).2.buses := by
    unfold fetchPlace
    split
    · obtain ⟨hword, hgood⟩ := hs.readWord (.of c.bank c.table) hg
      exact ⟨by rw [← hword]; rfl, hgood⟩
    · exact ⟨rfl, hg⟩
  generalize r.fetchPlace c = placed at hplaced
  obtain ⟨hplace, hgood⟩ := hplaced
  dsimp only
  rw [← hplace, channel_setChannel, if_pos rfl]
  obtain ⟨hpointer, hgood⟩ := hs.bytePointer (.of placed.1.lineBank placed.1.lineOffset) hgood
  exact ⟨by rw [← hpointer]; rfl, hgood⟩

theorem fetchHeader_still {r : Rig β} (hg : good r.buses) (i : ChannelId) :
    ((r.fetchHeader i).1, (r.fetchHeader i).2.channel i) =
        (r.channel i).fetched view (r.controller.active.anyAbove i) ∧
      good (r.fetchHeader i).2.buses := by
  obtain ⟨hbyte, hgood⟩ := hs.read (.of (r.channel i).bank (r.channel i).table) hg
  have hread : (r.read (.of (r.channel i).bank (r.channel i).table)).1 =
      view.byte (.of (r.channel i).bank (r.channel i).table) := hbyte
  rw [fetchHeader_eq, Channel.fetched]
  dsimp only
  rw [hread]
  cases Header.ofByte (view.byte (.of (r.channel i).bank (r.channel i).table)) with
  | stop =>
      obtain ⟨hend, hgood⟩ := endTable_still hs (r := (r.read _).2.spend slowAccess) hgood i
        (r.controller.active.anyAbove i)
      exact ⟨congrArg (Prod.mk false) hend, hgood⟩
  | entry lines repeats =>
      obtain ⟨hopened, hgood⟩ :=
        openEntry_still hs (r := (r.read _).2.spend slowAccess) hgood i lines repeats
      exact ⟨congrArg (Prod.mk true) hopened, hgood⟩

/-- What a turn of stepping on leaves of its channel, and whether the channel goes on. -/
theorem stepLine_still {r : Rig β} (hg : good r.buses) (running : ChannelMask) (i : ChannelId) :
    let after := (r.channel i).stepped view (r.controller.active.anyAbove i)
    (stepLine running r i).2.channel i = after.2 ∧
      (i ∈ (stepLine running r i).1 ↔ i ∈ running ∧ after.1 = true) ∧
      good (stepLine running r i).2.buses := by
  have hnext : (r.modifyChannel i Channel.nextLine).channel i = (r.channel i).nextLine := by
    rw [channel_modifyChannel, if_pos rfl]
  obtain ⟨hfetched, hgood⟩ := fetchHeader_still hs (r := r.modifyChannel i Channel.nextLine) hg i
  have hactive : (r.modifyChannel i Channel.nextLine).controller.active = r.controller.active := rfl
  rw [hnext, hactive] at hfetched
  rw [stepLine_eq, Channel.stepped]
  dsimp only
  split
  · rw [← hfetched]
    dsimp only
    split
    · exact ⟨rfl, by simp, hgood⟩
    · rw [channel_modifyChannel, if_pos rfl]
      exact ⟨rfl, by simp, hgood⟩
  · exact ⟨hnext, by simp, hg⟩

/-! ### Sending -/

theorem refreshCache_still {r : Rig β} (hg : good r.buses) (i : ChannelId) :
    (r.refreshCache i).channel i = (r.channel i).refreshed view ∧
      good (r.refreshCache i).buses := by
  cases hc : (r.channel i).cache with
  | some p =>
      have hkept : (r.channel i).refreshed view = r.channel i := by
        unfold Channel.refreshed
        rw [hc]
      rw [refreshCache_of_some hc, hkept]
      exact ⟨rfl, hg⟩
  | none =>
      have hasked : (r.channel i).refreshed view = { r.channel i with
          cache := view.pointer (.of (r.channel i).lineBank (r.channel i).lineOffset) } := by
        unfold Channel.refreshed
        rw [hc]
      obtain ⟨hpointer, hgood⟩ :=
        hs.bytePointer (.of (r.channel i).lineBank (r.channel i).lineOffset) hg
      rw [refreshCache_of_none hc, channel_setChannel, if_pos rfl, hasked, ← hpointer]
      exact ⟨rfl, hgood⟩

end

section

variable {β : Type}

/-- What the bytes of a unit tell the buses, one after the other. -/
theorem forUnit_calls {P : Rig (Logged β) → Prop} (mode : UnitMode)
    (calls : Nat → UInt8 → List BusCall) {step : Nat → UInt8 → Rig (Logged β) → Rig (Logged β)}
    (hstep : ∀ k o s, P s →
      P (step k o s) ∧ (step k o s).buses.calls = s.buses.calls ++ calls k o)
    {r : Rig (Logged β)} (h : P r) :
    P (r.forUnit mode step) ∧ (r.forUnit mode step).buses.calls =
      r.buses.calls ++ mode.offsets.zipIdx.flatMap fun p => calls p.2 p.1 := by
  refine forUnit_run (R := fun s s' calls =>
      P s → P s' ∧ s'.buses.calls = s.buses.calls ++ calls)
    (fun _ h => ⟨h, (List.append_nil _).symm⟩) (fun hfirst hrest h => ?_)
    (fun k o s _ => hstep k o s) r h
  obtain ⟨hP, hcalls⟩ := hfirst h
  obtain ⟨hlast, hcalls'⟩ := hrest hP
  exact ⟨hlast, by rw [hcalls', hcalls, List.append_assoc]⟩

variable [Buses β] {view : MemoryView} {good : β → Prop} (hs : Still view good)

include hs

theorem sendStraddling_still {r : Rig (Logged β)} (hg : good r.buses.inner) {c : Channel}
    (hc : c.unitReachesBlockEnd = true) :
    good (r.sendStraddling c).buses.inner ∧
      (r.sendStraddling c).buses.calls = r.buses.calls ++ c.unitCalls view := by
  rw [Channel.unitCalls, if_pos hc]
  refine forUnit_calls (P := fun s : Rig (Logged β) => good s.buses.inner) c.mode
    (c.straddlingCalls view) (fun k o s hs' => ?_) hg
  obtain ⟨hbyte, hgood⟩ := hs.read (.of c.lineBank (c.lineOffset + UInt16.ofNat k))
    (hs.setWorkRamTaken (isWorkRam c.lineBank (c.lineOffset + UInt16.ofNat k)) hs')
  rw [Channel.straddlingCalls, ← hbyte]
  refine ⟨hs.writeRegister _ _ hgood, ?_⟩
  exact List.append_assoc s.buses.calls _ _

/-- The log behind a byte of a unit that lies inside a block, where work RAM was spoken of. -/
structure InsideByte (view : MemoryView) (good : β → Prop) (c : Channel) (k : Nat) (offset : UInt8)
    (s s' : Rig (Logged β)) : Prop where
  good : good s'.buses.inner
  taken : s'.buses.taken = s.buses.taken
  calls : s'.buses.calls =
    s.buses.calls ++ [.writeRegister (c.register offset) (c.unitByte view k) s.buses.taken]

/-- Inside a block one word on work RAM is good for all bytes of a unit. -/
theorem sendInside_still {r : Rig (Logged β)} (hg : good r.buses.inner) {c : Channel}
    (hc : ¬ c.unitReachesBlockEnd = true)
    {step : Nat → UInt8 → Rig (Logged β) → Rig (Logged β)}
    (hstep : ∀ k o s, good s.buses.inner → InsideByte view good c k o s (step k o s)) :
    let told := r.setWorkRamTaken (isWorkRam c.lineBank c.lineOffset)
    good (told.forUnit c.mode step).buses.inner ∧
      (told.forUnit c.mode step).buses.calls = r.buses.calls ++ c.unitCalls view := by
  intro told
  obtain ⟨⟨hgood, -⟩, hcalls⟩ := forUnit_calls
    (P := fun s : Rig (Logged β) =>
      good s.buses.inner ∧ s.buses.taken = isWorkRam c.lineBank c.lineOffset)
    c.mode (c.insideCalls view)
    (fun k o s hs' => by
      obtain ⟨hgood, htaken, hcalls⟩ := hstep k o s hs'.1
      rw [hs'.2] at htaken hcalls
      exact ⟨⟨hgood, htaken⟩, hcalls⟩)
    (r := told) ⟨hs.setWorkRamTaken _ hg, rfl⟩
  refine ⟨hgood, ?_⟩
  rw [hcalls, Channel.unitCalls, if_neg hc]
  exact List.append_assoc r.buses.calls [_] _

theorem sendMapped_still {r : Rig (Logged β)} (hg : good r.buses.inner) {c : Channel}
    (hc : ¬ c.unitReachesBlockEnd = true) (hcache : c.cache = none) :
    let sent := (r.setWorkRamTaken (isWorkRam c.lineBank c.lineOffset)).sendMapped c
    good sent.buses.inner ∧ sent.buses.calls = r.buses.calls ++ c.unitCalls view := by
  refine sendInside_still hs hg hc fun k o s hg => ?_
  obtain ⟨hbyte, hgood⟩ := hs.read (Address.of c.lineBank c.lineOffset + UInt32.ofNat k) hg
  have hunit : c.unitByte view k = (s.read (.of c.lineBank c.lineOffset + UInt32.ofNat k)).1 := by
    rw [Channel.unitByte, hcache]
    exact hbyte.symm
  refine ⟨hs.writeRegister _ _ hgood, rfl, ?_⟩
  rw [hunit]
  rfl

theorem sendDirect_still {r : Rig (Logged β)} (hg : good r.buses.inner) {c : Channel}
    (hc : ¬ c.unitReachesBlockEnd = true) {p : Pointer} (hcache : c.cache = some p) :
    let sent := (r.setWorkRamTaken (isWorkRam c.lineBank c.lineOffset)).sendDirect c p
    good sent.buses.inner ∧ sent.buses.calls = r.buses.calls ++ c.unitCalls view := by
  refine sendInside_still hs hg hc fun k o s hg => ?_
  obtain ⟨hbyte, hgood⟩ := hs.peek (p.offset (UInt64.ofNat k)) hg
  have hunit : c.unitByte view k = (s.peek (p.offset (UInt64.ofNat k))).1 := by
    rw [Channel.unitByte, hcache]
    exact hbyte.symm
  dsimp only
  split
  · refine ⟨hs.writeRegister _ _ (hs.setOpenBus _ hgood), rfl, ?_⟩
    rw [hunit]
    rfl
  · refine ⟨hs.writeRegister _ _ hgood, rfl, ?_⟩
    rw [hunit]
    rfl

theorem pointSprites_still {r : Rig (Logged β)} (hg : good r.buses.inner) (c : Channel) :
    good (r.pointSprites c).buses.inner ∧ (r.pointSprites c).buses.calls = r.buses.calls ++
      if c.port = 0x04 ∧ r.controller.settings.resetsSpriteAddress = true then
        [.setSpriteAddress 0x10C] else [] := by
  unfold pointSprites
  split
  · exact ⟨hs.setSpriteAddress _ hg, rfl⟩
  · exact ⟨hg, (List.append_nil _).symm⟩

/-- A unit goes out, byte by byte if it reaches the end of its block, and at one go otherwise. -/
def sendForward (c : Channel) (i : ChannelId) (r : Rig (Logged β)) : Rig (Logged β) :=
  if c.unitReachesBlockEnd then (r.setCache i none).sendStraddling c
  else
    match c.cache with
    | none => (r.setWorkRamTaken (isWorkRam c.lineBank c.lineOffset)).sendMapped c
    | some p =>
        ((r.setWorkRamTaken (isWorkRam c.lineBank c.lineOffset)).sendDirect c p).setCache i
          (some (p.offset (UInt64.ofNat c.mode.size)))

theorem sendForward_still {r : Rig (Logged β)} (hg : good r.buses.inner) {c : Channel}
    {i : ChannelId} (hc : r.channel i = c) :
    (r.sendForward c i).channel i = { c with cache := c.cacheBehind } ∧
      good (r.sendForward c i).buses.inner ∧
      (r.sendForward c i).buses.calls = r.buses.calls ++ c.unitCalls view := by
  unfold sendForward Channel.cacheBehind
  by_cases hend : c.unitReachesBlockEnd = true
  · rw [if_pos hend, if_pos hend]
    refine ⟨?_, sendStraddling_still hs (r := r.setCache i none) hg hend⟩
    rw [(keeps_sendStraddling c _).channel, setCache, channel_modifyChannel, if_pos rfl, hc]
  · rw [if_neg hend, if_neg hend]
    cases hcache : c.cache with
    | none =>
        refine ⟨?_, sendMapped_still hs hg hend hcache⟩
        rw [(keeps_sendMapped c _).channel, channel_setWorkRamTaken, hc, Option.map_none, ← hcache]
    | some p =>
        refine ⟨?_, sendDirect_still hs hg hend hcache⟩
        dsimp only
        rw [setCache, channel_modifyChannel, if_pos rfl, (keeps_sendDirect c p _).channel,
          channel_setWorkRamTaken, hc, Option.map_some]

/-- What a turn of sending to the registers leaves of its channel, and what it tells the buses. -/
theorem sendInTurn_still {r : Rig (Logged β)} (hg : good r.buses.inner) {i : ChannelId}
    (hforward : (r.channel i).control.reverse = false) :
    (r.sendInTurn i).channel i = (r.channel i).sent view ∧
      good (r.sendInTurn i).buses.inner ∧
      (r.sendInTurn i).buses.calls = r.buses.calls ++
        (r.channel i).turnCalls view r.controller.settings.resetsSpriteAddress := by
  obtain ⟨hchannel, hgood⟩ := refreshCache_still hs.logged
    (r := (r.setWorkRamTaken false).setCurrent i) (hs.setWorkRamTaken false hg) i
  have hasked : (((r.setWorkRamTaken false).setCurrent i).refreshCache i).buses.calls =
      r.buses.calls ++ [.setWorkRamTaken false] := by
    unfold refreshCache
    dsimp only
    split <;> rfl
  have hsettings : (((r.setWorkRamTaken false).setCurrent i).refreshCache i).controller.settings =
      r.controller.settings := by
    unfold refreshCache
    dsimp only
    split <;> rfl
  have hreverse : ((r.channel i).refreshed view).control.reverse = false := by
    unfold Channel.refreshed
    split <;> exact hforward
  change _ = (r.channel i).refreshed view at hchannel
  rw [sendInTurn, sendUnit_eq, Channel.sent, Channel.turnCalls, ← hsettings]
  generalize ((r.setWorkRamTaken false).setCurrent i).refreshCache i = s at *
  generalize (r.channel i).refreshed view = c at *
  obtain ⟨hpointed, hcalls⟩ := pointSprites_still hs hgood c
  dsimp only
  rw [hchannel]
  by_cases hpending : c.pending = true
  · obtain ⟨hlast, hlastGood, hlastCalls⟩ := sendForward_still hs hpointed
      (((s.keeps_pointSprites c).channel i).trans hchannel)
    have hsends : ¬ (!c.pending) = true := by simp [hpending]
    rw [if_neg hsends, if_neg (Bool.eq_false_iff.mp hreverse), if_pos hpending, if_pos hpending]
    refine ⟨hlast, hlastGood, hlastCalls.trans ?_⟩
    rw [hcalls, hasked]
    simp only [List.append_assoc, List.cons_append, List.nil_append]
  · have hsends : (!c.pending) = true := by simp [hpending]
    rw [if_pos hsends, if_neg hpending, if_neg hpending]
    exact ⟨hchannel, hgood, hasked⟩

end

end Rig

end DmaController
