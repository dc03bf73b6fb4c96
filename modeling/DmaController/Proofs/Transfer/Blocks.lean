import DmaController.Proofs.Checked
import DmaController.Proofs.Transfer.Events
import DmaController.Proofs.Transfer.Stretches

/-! # Transfers block by block

The engine moves the bytes of a transfer to the registers in two loops: the inner one moves the
bytes of a block without looking up, and the outer one takes their number off those that remain and
opens the next block.  `Transfer.runBlocks?` is that pair of loops, and `Host.runChannel?` the whole
transfer with it.  They fail wherever an access would leave its array or a difference would not be a
number, and in particular

* when the place in the unit is not one of its bytes (`UnitCursor.offset?`),
* when a byte is fetched through the pointer of a block from a position outside of the block for
  which the pointer was asked (`Transfer.fetch?`),
* when a position in its block is not smaller than the block (`Transfer.firstBlock?`), when a block
  takes more bytes than remain, and when the blocks do not come to an end.

None of that happens: block by block the transfer does what it does byte by byte (`runChannel?_eq`).
`Transfer.Sending` is the invariant of both loops.  It needs the address in the channel to follow
the position in the source, as the next block is opened at the one and read from the other; so the
events between the bytes have to leave it alone (`KeepsAddresses`). -/

namespace DmaController

/-- Events that leave the addresses in the channels alone. -/
def KeepsAddresses (κ β : Type) [Schedule κ β] : Prop :=
  ∀ (e : Host κ β) (j : ChannelId),
    ((Schedule.fire e).rig.channel j).address = (e.rig.channel j).address

theorem KeepsAddresses.passByte {κ β : Type} [Schedule κ β] (hfire : KeepsAddresses κ β)
    (h : Host κ β) (i j : ChannelId) :
    ((h.passByte i).2.rig.channel j).address = (h.rig.channel j).address :=
  Host.settleWithin_induction
    (P := fun e : Host κ β => (e.rig.channel j).address = (h.rig.channel j).address)
    (fun e he => (hfire e j).trans he) settleLimit (h := h.spend slowAccess) rfl

/-! ### One byte -/

namespace Transfer

section

variable {β : Type} [Buses β]

/-- The bytes from an offset to the end of its block, in the direction of the transfer. -/
def firstBlock? (t : Transfer) (o : UInt16) : Option Nat :=
  if t.channel.control.fixed then some t.channel.length
  else if t.channel.control.decrement then some (positionInBlock o + 1)
  else sub? blockSize (positionInBlock o)

/-- Fetches the byte at a position of a source, which was opened at an offset. -/
def fetch? (t : Transfer) (source : Source) (opened position : UInt16) (r : Rig β) :
    Option (UInt8 × Rig β) :=
  match source with
  | .mapped => some (r.read (.of t.channel.bank position))
  | .block base =>
    if SameBlock opened position then some (r.peek (base.offset position.toUInt64)) else none
  | .decoder => (r.controller.decoder.byte? position).map fun v => (v, r)

/-- Sends the byte at a position of a stretch, which was opened at an offset. -/
def sendByte? (t : Transfer) (opened : UInt16) (s : Stretch) (place : UnitCursor)
    (position : UInt16) (r : Rig β) : Option (Rig β) := do
  let offset ← place.offset?
  let got ← t.fetch? s.source opened position r
  some (s.route.deliver (t.channel.register offset) offset got.1 s.taken got.2)

/-- Collects a byte. -/
def collectByte? (t : Transfer) (place : UnitCursor) (r : Rig β) : Option (Rig β) := do
  let a := (r.channel t.id).address
  let r := if t.channel.mayMeetWorkRamPort then r.setWorkRamTaken (decide (a < 0x2000)) else r
  let offset ← place.offset?
  let got := r.readRegister (t.channel.register offset)
  some (got.2.write (.of t.channel.bank a) got.1)

variable (t : Transfer)

theorem firstBlock?_eq (o : UInt16) : t.firstBlock? o = some (t.firstStretch o) := by
  unfold firstBlock? firstStretch
  split
  · rfl
  split
  · rfl
  · exact sub?_of_le (Nat.le_of_lt (positionInBlock_lt o))

theorem sendByte?_eq {opened position : UInt16} {place : UnitCursor} {s : Stretch} (r : Rig β)
    (hplace : place.step < place.mode.size)
    (hblock : ∀ base, s.source = .block base → SameBlock opened position) :
    t.sendByte? opened s place position r = some (t.sendByte place position s r) := by
  have hfetch : t.fetch? s.source opened position r = some (t.fetch s.source position r) := by
    unfold fetch? fetch
    cases hsource : s.source with
    | mapped => rfl
    | block base => exact if_pos (hblock base hsource)
    | decoder =>
        dsimp only
        rw [StreamDecoder.byte?_eq, Option.map_some]
  unfold sendByte?
  rw [UnitCursor.offset?_of_lt hplace, hfetch]
  rfl

theorem collectByte?_eq {place : UnitCursor} (r : Rig β) (hplace : place.step < place.mode.size) :
    t.collectByte? place r = some (t.collectByte place r) := by
  unfold collectByte?
  rw [UnitCursor.offset?_of_lt hplace]
  rfl

end

/-! ### The loops -/

section

variable {κ β : Type} [Buses β] [Schedule κ β]

/-- Where a transfer to the registers is after a block. -/
structure Landing (κ β : Type) where
  goesOn : Bool
  place : UnitCursor
  position : UInt16
  host : Host κ β

/-- A byte was moved, and its time passes. -/
def pass (t : Transfer) (h : Host κ β) (r : Rig β) : Bool × Host κ β :=
  ({ h with rig := r.modifyChannel t.id (·.countDown t.step) }).passByte t.id

/-- Sends the next bytes of a stretch, which was opened at an offset. -/
def runBlock? (t : Transfer) (opened : UInt16) (s : Stretch) :
    Nat → UnitCursor → UInt16 → Host κ β → Option (Landing κ β)
  | 0, place, position, h => some ⟨true, place, position, h⟩
  | n + 1, place, position, h => do
    let r ← t.sendByte? opened s place position h.rig
    let passed := t.pass h r
    if passed.1 then runBlock? t opened s n place.advance (position + t.step.word) passed.2
    else some ⟨false, place.advance, position + t.step.word, passed.2⟩

/-- Sends the bytes that remain, block by block, but no more than a number of blocks. -/
def runBlocks? (t : Transfer) :
    Nat → UInt16 → Stretch → Nat → UnitCursor → UInt16 → Host κ β → Option (Bool × Host κ β)
  | 0, _, _, _, _, _, _ => none
  | blocks + 1, opened, s, remaining, place, position, h => do
    let block := min s.left remaining
    let remaining ← sub? remaining block
    let landed ← t.runBlock? opened s block place position h
    if landed.goesOn then
      if remaining = 0 then some (true, landed.host)
      else
        let a := (landed.host.rig.channel t.id).address
        let (s, r) := t.openStretch a blockSize landed.host.rig
        runBlocks? t blocks a s remaining landed.place landed.position
          { landed.host with rig := r }
    else some (false, landed.host)

/-- Collects the bytes of a transfer. -/
def runCollecting? (t : Transfer) : Nat → UnitCursor → Host κ β → Option (Bool × Host κ β)
  | 0, _, h => some (true, h)
  | n + 1, place, h => do
    let r ← t.collectByte? place h.rig
    let passed := t.pass h r
    if passed.1 then runCollecting? t n place.advance passed.2 else some (false, passed.2)

/-! ### What the loops keep -/

variable {t : Transfer} {opened position : UInt16} {place : UnitCursor} {s : Stretch}
  {left remaining : Nat}

/-- Where a transfer to the registers stands with `remaining` bytes to go, of which `left` lie in
the stretch that was opened last: the place is one in the unit, and the stretch lasts for all the
bytes, or the address in the channel is where the source is read, in the block that was opened. -/
structure Sending (t : Transfer) (opened : UInt16) (s : Stretch) (left remaining : Nat)
    (place : UnitCursor) (position : UInt16) (r : Rig β) : Prop where
  place : place.step < place.mode.size
  source : (s.source = .decoder ∧ remaining ≤ left) ∨
    (s.source ≠ .decoder ∧ t.InBlock opened position left ∧
      (r.channel t.id).address = position)

omit [Schedule κ β] in
theorem Sending.sendByte? {r : Rig β}
    (hs : t.Sending opened s (left + 1) remaining place position r) :
    t.sendByte? opened s place position r = some (t.sendByte place position s r) := by
  refine t.sendByte?_eq r hs.place fun base hbase => ?_
  rcases hs.source with ⟨hdecoder, -⟩ | ⟨-, hblock, -⟩
  · rw [hdecoder] at hbase
    cases hbase
  · exact hblock.inside (Nat.zero_lt_succ _)

/-- Where a stretch has bytes left, the next byte is sent from it. -/
theorem pass_sendByte (n : Nat) (h : Host κ β) :
    t.pass h (t.sendByte place position s h.rig) =
      (h.byteDone t (.sending place position { s with left := n + 1 })).passByte t.id := rfl

omit [Schedule κ β] in
theorem address_sendByte (h : Host κ β) (hlast : (h.rig.channel t.id).address = position) :
    ((h.byteDone t (.sending place position s)).rig.channel t.id).address =
      position + t.step.word := by
  rw [Host.channel_byteDone, if_pos rfl, ← hlast]
  rfl

omit [Schedule κ β] in
/-- A stretch that has just been opened at the address in the channel. -/
theorem sending_openStretch {r : Rig β} (hplace : place.step < place.mode.size)
    (haddress : (r.channel t.id).address = position) (hblock : t.InBlock position position left) :
    t.Sending position (t.openStretch position left r).1 left remaining place position
      (t.openStretch position left r).2 := by
  refine ⟨hplace, .inr ⟨?_, hblock, ?_⟩⟩
  · rw [source_openStretch]
    cases (Buses.blockPointer (.of t.channel.bank position) r.buses).1 <;> exact nofun
  · rw [(Host.keeps_openStretch t position left r).channel]
    exact haddress

section

variable (hfire : KeepsAddresses κ β)

include hfire

/-- One byte of a block. -/
theorem Sending.byte {h : Host κ β}
    (hs : t.Sending opened s (left + 1) (remaining + 1) place position h.rig) :
    t.Sending opened s left remaining place.advance (position + t.step.word)
      (t.pass h (t.sendByte place position s h.rig)).2.rig := by
  refine ⟨UnitCursor.advance_step_lt hs.place, ?_⟩
  rcases hs.source with ⟨hdecoder, henough⟩ | ⟨hmemory, hblock, haddress⟩
  · exact .inl ⟨hdecoder, Nat.le_of_succ_le_succ henough⟩
  · refine .inr ⟨hmemory, hblock.step, ?_⟩
    rw [pass_sendByte left, hfire.passByte]
    exact address_sendByte h haddress

/-- The inner loop: it sends the bytes of a block as the transfer does byte by byte, and if it comes
to its end, the transfer stands as it should. -/
theorem Sending.runBlock? {n : Nat} (hn : n ≤ left) {k : Nat} {h : Host κ β}
    (hs : t.Sending opened s left (n + k) place position h.rig) :
    ∃ landed : Landing κ β, t.runBlock? opened s n place position h = some landed ∧
      Host.moveBytes t (n + k) (.sending place position { s with left := left }) h =
        (if landed.goesOn then
          Host.moveBytes t k
            (.sending landed.place landed.position { s with left := left - n }) landed.host
        else (false, landed.host)) ∧
      (landed.goesOn = true →
        t.Sending opened s (left - n) k landed.place landed.position landed.host.rig) := by
  induction n generalizing left place position h with
  | zero =>
      rw [Nat.zero_add] at hs ⊢
      exact ⟨_, rfl, rfl, fun _ => hs⟩
  | succ n ih =>
      obtain ⟨left, rfl⟩ : ∃ l, left = l + 1 := ⟨left - 1, by omega⟩
      rw [Nat.succ_add] at hs ⊢
      have hbyte := hs.byte hfire
      rw [Transfer.runBlock?, hs.sendByte?, Host.moveBytes_succ, ← pass_sendByte left,
        Nat.add_sub_add_right]
      dsimp only [Option.bind_eq_bind, Option.bind_some]
      by_cases hgoes : (t.pass h (t.sendByte place position s h.rig)).1 = true
      · rw [if_pos hgoes, if_pos hgoes]
        exact ih (Nat.le_of_succ_le_succ hn) hbyte
      · rw [if_neg hgoes, if_neg hgoes]
        exact ⟨_, rfl, rfl, fun h => absurd h Bool.false_ne_true⟩

omit hfire in
/-- Where a stretch is used up, the next one is opened ahead of the byte. -/
theorem moveBytes_reopen (n : Nat) (s : Stretch) (h : Host κ β) :
    let opened := t.openStretch (h.rig.channel t.id).address blockSize h.rig
    Host.moveBytes t (n + 1) (.sending place position { s with left := 0 }) h =
      Host.moveBytes t (n + 1) (.sending place position opened.1)
        { h with rig := opened.2 } := rfl

/-- The outer loop: block by block the bytes that remain are sent as byte by byte. -/
theorem Sending.runBlocks? {blocks : Nat} {h : Host κ β} (hremaining : 0 < remaining)
    (henough : remaining ≤ blocks) (hleft : 0 < s.left)
    (hs : t.Sending opened s s.left remaining place position h.rig) :
    t.runBlocks? blocks opened s remaining place position h =
      some (Host.moveBytes t remaining (.sending place position s) h) := by
  induction blocks generalizing opened s remaining place position h with
  | zero => omega
  | succ blocks ih =>
      obtain ⟨rest, hrest⟩ : ∃ rest, remaining = min s.left remaining + rest :=
        ⟨remaining - min s.left remaining, by omega⟩
      generalize hblock : min s.left remaining = block at hrest
      have hs' := hs
      rw [hrest] at hs'
      obtain ⟨landed, hrun, hbytes, hlanded⟩ := hs'.runBlock? hfire (by omega)
      have hsub : sub? remaining block = some rest := by
        rw [sub?_of_le (by omega), hrest, Nat.add_sub_cancel_left]
      have hsame : ({ s with left := s.left } : Stretch) = s := rfl
      rw [hsame, ← hrest] at hbytes
      rw [Transfer.runBlocks?, hblock, hsub]
      dsimp only [Option.bind_eq_bind, Option.bind_some]
      rw [hrun, hbytes]
      dsimp only [Option.bind_some]
      by_cases hgoes : landed.goesOn = true
      · rw [if_pos hgoes, if_pos hgoes]
        cases rest with
        | zero => rfl
        | succ rest =>
            -- Bytes remain, so the block took all that were left in the stretch.
            have hused : s.left - block = 0 := by omega
            obtain ⟨hplace, hsource⟩ := hlanded hgoes
            rw [hused] at hsource ⊢
            rw [if_neg (Nat.succ_ne_zero rest), moveBytes_reopen]
            rcases hsource with ⟨-, henough⟩ | ⟨-, hend, haddress⟩
            · omega
            · rw [haddress]
              exact ih (Nat.succ_pos rest) (by omega) (Nat.zero_lt_succ _)
                (sending_openStretch hplace haddress hend.reopen)
      · rw [if_neg hgoes, if_neg hgoes]

end

/-- The loop of a transfer to the A-bus. -/
theorem runCollecting?_eq (n : Nat) {h : Host κ β} (hplace : place.step < place.mode.size) :
    t.runCollecting? n place h = some (Host.moveBytes t n (.collecting place) h) := by
  induction n generalizing place h with
  | zero => rfl
  | succ n ih =>
      have hpassed : t.pass h (t.collectByte place h.rig) =
          (h.byteDone t (.collecting place)).passByte t.id := rfl
      rw [runCollecting?, t.collectByte?_eq h.rig hplace, Host.moveBytes_succ, ← hpassed]
      dsimp only [Option.bind_eq_bind, Option.bind_some]
      split
      · exact ih (UnitCursor.advance_step_lt hplace)
      · rfl

end

end Transfer

/-! ### Whole transfers -/

section

variable {κ β : Type} [Buses β] [Schedule κ β]

/-- Sends all bytes of a transfer. -/
def Transfer.sendAll? (t : Transfer) (decoded : Bool) (h : Host κ β) : Option (Bool × Host κ β) :=
  let length := t.channel.length
  let place := UnitCursor.start t.channel.mode
  if decoded then
    let (s, r) := t.settleStretch .decoder false length h.rig
    t.runBlocks? length 0 s length place 0 { h with rig := r }
  else do
    let offset := t.channel.address
    let block ← t.firstBlock? offset
    let (s, r) := t.openStretch offset block h.rig
    t.runBlocks? length offset s length place offset { h with rig := r }

/-- Collects all bytes of a transfer. -/
def Transfer.collectAll? (t : Transfer) (h : Host κ β) : Option (Bool × Host κ β) :=
  t.runCollecting? t.channel.length (.start t.channel.mode)
    { h with rig := (t.beginCollecting h.rig).2 }

namespace Transfer

variable (t : Transfer)

omit [Buses β] [Schedule κ β] in
theorem firstStretch_pos (o : UInt16) : 0 < t.firstStretch o := by
  have hposition := positionInBlock_lt o
  unfold firstStretch
  split
  · exact t.channel.length_pos
  split
  · exact Nat.succ_pos _
  · omega

theorem collectAll?_eq (h : Host κ β) :
    t.collectAll? h =
      some (Host.moveBytes t t.channel.length (t.beginCollecting h.rig).1
        { h with rig := (t.beginCollecting h.rig).2 }) :=
  t.runCollecting?_eq t.channel.length t.channel.mode.size_pos

theorem sendAll?_eq (hfire : KeepsAddresses κ β) {decoded : Bool} {h : Host κ β}
    (hstep : decoded = false → t.step = t.channel.control.step)
    (hchannel : h.rig.channel t.id = t.channel) :
    t.sendAll? decoded h =
      some (Host.moveBytes t t.channel.length (t.beginSending decoded h.rig).1
        { h with rig := (t.beginSending decoded h.rig).2 }) := by
  have hlength := t.channel.length_pos
  have hplace : (UnitCursor.start t.channel.mode).step < t.channel.mode.size :=
    t.channel.mode.size_pos
  unfold sendAll? beginSending
  cases decoded with
  | true =>
      exact Sending.runBlocks? hfire hlength (Nat.le_refl _) hlength
        ⟨hplace, .inl ⟨rfl, Nat.le_refl _⟩⟩
  | false =>
      have hcloses := t.closes_firstStretch t.channel.address
      rw [← hstep rfl] at hcloses
      dsimp only [Option.bind_eq_bind]
      rw [if_neg Bool.false_ne_true, if_neg Bool.false_ne_true, firstBlock?_eq, Option.bind_some]
      exact Sending.runBlocks? hfire hlength (Nat.le_refl _) (t.firstStretch_pos _)
        (sending_openStretch hplace (congrArg Channel.address hchannel) ⟨hcloses, fun _ => rfl⟩)

end Transfer

namespace Host

/-- Runs the transfer of channel `i`.  One that moves nothing has nothing to look at. -/
def runChannel? (h : Host κ β) (i : ChannelId) : Option (Bool × Host κ β) :=
  let c := h.rig.channel i
  if c.feedsWorkRamItself then some (h.runChannel i)
  else
    let looked := (h.noteStart i).takeDecoderReady
    let decoded := c.control.fixed && looked.1
    let t : Transfer := ⟨i, c, if decoded then c.control.direction else c.control.step⟩
    let start := looked.2.spend slowAccess
    let ran := if c.control.reverse then t.collectAll? start else t.sendAll? decoded start
    ran.map fun (done, stop) => (done, stop.conclude false done)

/-- Block by block, a transfer does what it does byte by byte. -/
theorem runChannel?_eq (hfire : KeepsAddresses κ β) (h : Host κ β) (i : ChannelId) :
    h.runChannel? i = some (h.runChannel i) := by
  have hchannel : ((h.noteStart i).takeDecoderReady.2.spend slowAccess).rig.channel i =
      h.rig.channel i := by
    obtain ⟨d, hlooked⟩ := (h.noteStart i).takeDecoderReady_snd
    rw [hlooked]
    rfl
  unfold runChannel?
  dsimp only
  by_cases hidle : (h.rig.channel i).feedsWorkRamItself = true
  · rw [if_pos hidle]
  rw [if_neg hidle, runChannel_eq]
  unfold prepare Transfer.begin
  dsimp only
  rw [if_neg hidle, Bool.eq_false_iff.mpr hidle]
  dsimp only
  split
  · rw [Transfer.collectAll?_eq, Option.map_some]
  · rw [Transfer.sendAll?_eq _ hfire (fun hdecoded => by rw [hdecoded]; rfl) hchannel,
      Option.map_some]

/-- Runs the transfers of a set of channels. -/
def startChannels? (h : Host κ β) (m : ChannelMask) : Option (Host κ β) :=
  if h.rig.controller.activity.busy || m == ∅ then some h
  else
    m.toList.foldlM (fun h i => (h.runChannel? i).map Prod.snd)
      (h.spend h.rig.controller.settings.syncDelay)

/-- The processor writes a register of the controller. -/
def writeRegister? (h : Host κ β) (a : UInt16) (v : UInt8) : Option (Host κ β) :=
  if a = 0x420B then h.startChannels? ⟨v⟩
  else if a = 0x420C then some (h.modifyController (·.enable ⟨v⟩))
  else if Controller.isChannelRegister a then
    (h.rig.controller.writeChannelRegister? a v).map fun k => h.modifyController fun _ => k
  else if a = 0x4801 then some (h.modifyController (·.writeReady v))
  else some h

theorem startChannels?_eq (hfire : KeepsAddresses κ β) (h : Host κ β) (m : ChannelMask) :
    h.startChannels? m = some (h.startChannels m) := by
  unfold startChannels? startChannels
  split
  · rfl
  · simp only [runChannel?_eq hfire, Option.map_some]
    exact List.foldlM_pure

/-- The processor's writes start transfers that stay in bounds, and find the channel that they are
for. -/
theorem writeRegister?_eq (hfire : KeepsAddresses κ β) (h : Host κ β) (a : UInt16) (v : UInt8) :
    h.writeRegister? a v = some (h.writeRegister a v) := by
  unfold writeRegister? writeRegister
  split
  · exact startChannels?_eq hfire h ⟨v⟩
  split
  · rfl
  split
  · rw [Controller.writeChannelRegister?_eq]
    rfl
  split
  · rfl
  · rfl

end Host

end

end DmaController
