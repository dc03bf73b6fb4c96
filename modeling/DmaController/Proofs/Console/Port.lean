import DmaController.Proofs.Console.Countdown
import DmaController.Proofs.Console.Crossing
import DmaController.Proofs.Console.Timetable
import DmaController.Proofs.Transfer.Collect
import Mathlib.Data.List.Basic

/-! # The work RAM port

`Host.crossings` has a crossing for each byte of a general transfer, behind which the buses are as
they are behind the byte (`Host.arrived_crossings`).  The transfer says of work RAM what is true of
the stretch it has opened, or of the very byte where a system bank shows work RAM only in part.
Events between its bytes may say something else, but each of them puts back what it found
(`Rig.Spares`).  So the transfer stands as it should ahead of each byte (`Transfer.Stands`), and
when the byte is ready to move, the board has been told the truth about it
(`Transfer.Ready.crossing`).

Line transfers tell the board what their registers say.  Altogether the port serves a byte if and
only if its place, as its channel says, is outside of work RAM (`port_exclusive`).  For all general
transfers, and for all channels that keep their direct access fresh, this is where the byte lies.  A
channel whose direct access was left behind fetches its byte from elsewhere, and then work RAM may
have to serve it on both buses (`astray_served_twice`). -/

namespace DmaController

/-! ### The bytes of a general transfer -/

section

variable {β : Type} [Buses β]

/-- Direct access to the byte at a position of a source, where there is any. -/
def Source.direct (position : UInt16) : Source → Option Pointer
  | .block base => some (base.offset position.toUInt64)
  | _ => none

/-- The crossing of a byte of a general transfer that is ready to move. -/
def Transfer.crossing (t : Transfer) (progress : Progress) (r : Rig β) : Option (Crossing β) :=
  let bank := t.channel.bank
  let offset := (r.channel t.id).address
  match progress with
  | .idle => none
  | .collecting place =>
    let register := t.channel.register place.offset
    let got := r.readRegister register
    some ⟨bank, offset, none, register, true, got.1, r.buses, got.2.buses⟩
  | .sending place position s =>
    let got := t.fetch s.source position r
    some ⟨bank, offset, s.source.direct position, t.channel.register place.offset, false, got.1,
      got.2.buses, (t.carry progress r).buses⟩

/-- Whether nothing is carried. -/
def Progress.isIdle : Progress → Bool
  | .idle => true
  | _ => false

/-- The crossing of a byte leaves the buses as the byte does. -/
theorem Transfer.arrived_crossing (t : Transfer) (progress : Progress) (r : Rig β) :
    (t.crossing (t.poise progress r).1 (t.poise progress r).2).map Crossing.arrived =
      if progress.isIdle then none else some (t.moveByte progress r).2.buses := by
  rw [t.moveByte_snd]
  cases progress <;> rfl

theorem Transfer.isIdle_begin (t : Transfer) (decoded : Bool) (r : Rig β) :
    (t.begin decoded r).1.isIdle = false := by
  unfold Transfer.begin
  split
  · rfl
  · cases decoded <;> rfl

variable {κ : Type} [Schedule κ β]

namespace Host

omit [Schedule κ β] in
theorem isIdle_prepare (h : Host κ β) (i : ChannelId) :
    (h.prepare i).2.1.isIdle = (h.rig.channel i).feedsWorkRamItself := by
  unfold prepare
  dsimp only
  cases (h.rig.channel i).feedsWorkRamItself with
  | true => rfl
  | false => exact Transfer.isIdle_begin _ _ _

/-- What is carried ahead of the first byte is carried ahead of all. -/
theorem isIdle_bytesAhead (t : Transfer) (n : Nat) (progress : Progress) (h : Host κ β) :
    ∀ ahead ∈ bytesAhead t n progress h, ahead.1.isIdle = progress.isIdle := by
  induction n generalizing progress h with
  | zero => exact List.forall_mem_nil _
  | succ n ih =>
      refine List.forall_mem_cons.mpr ⟨rfl, ?_⟩
      split
      · intro ahead hahead
        rw [ih _ _ ahead hahead]
        cases progress <;> rfl
      · exact List.forall_mem_nil _

/-- The crossings of the general transfer of channel `i`. -/
def crossings (h : Host κ β) (i : ChannelId) : List (Crossing β) :=
  let (t, progress, start) := h.prepare i
  (bytesAhead t (h.rig.channel i).length progress start).filterMap fun ahead =>
    let poised := t.poise ahead.1 ahead.2.rig
    t.crossing poised.1 poised.2

/-- The crossings of a transfer leave the buses as its bytes do, one by one, and there are none if
it moves nothing. -/
theorem arrived_crossings (h : Host κ β) (i : ChannelId) :
    (h.crossings i).map Crossing.arrived =
      if (h.rig.channel i).feedsWorkRamItself then []
      else (h.transferNotes (fun e => [e]) i).map fun byte => byte.1.rig.buses := by
  rw [← isIdle_prepare]
  unfold crossings transferNotes
  generalize h.prepare i = prepared
  obtain ⟨t, progress, start⟩ := prepared
  generalize (h.rig.channel i).length = n
  have hcrossing : ∀ ahead ∈ bytesAhead t n progress start,
      (t.crossing (t.poise ahead.1 ahead.2.rig).1 (t.poise ahead.1 ahead.2.rig).2).map
          Crossing.arrived =
        if progress.isIdle then none else some (ahead.2.byteDone t ahead.1).rig.buses := by
    intro ahead hahead
    rw [t.arrived_crossing, isIdle_bytesAhead t n progress start ahead hahead]
    rfl
  dsimp only
  rw [List.map_filterMap, List.filterMap_congr hcrossing]
  cases progress.isIdle with
  | true => exact List.filterMap_eq_nil_iff.mpr fun _ _ => rfl
  | false =>
      have hdone := congrArg (List.map fun e : Host κ β => e.rig.buses)
        (bytesAhead_done (fun e => [e]) t n progress start)
      rw [List.map_map, List.map_map] at hdone
      exact (congrFun List.filterMap_eq_map _).trans hdone

end Host

end

/-! ### Where a transfer stands -/

/-- A stretch leads to the places in the block of an offset: its word on work RAM is right for them,
and so are its pointers. -/
structure Stretch.Leads (bank : UInt8) (o : UInt16) (s : Stretch) : Prop where
  taken : s.taken = isWorkRam bank o
  source : s.source = .mapped ∨ ∃ base, s.source = .block base ∧
    ∀ o', SameBlock o o' → Board.Points (base.offset o'.toUInt64) bank o'

theorem Stretch.Leads.congr {bank : UInt8} {o o' : UInt16} {s : Stretch} (h : s.Leads bank o)
    (ho : SameBlock o' o) (left : Nat) : Stretch.Leads bank o' { s with left := left } := by
  obtain ⟨htaken, hsource⟩ := h
  refine ⟨htaken.trans (isWorkRam_of_sameBlock ho.symm bank), ?_⟩
  rcases hsource with hmapped | ⟨base, hblock, hpoints⟩
  · exact .inl hmapped
  · exact .inr ⟨base, hblock, fun o'' hsame => hpoints o'' (ho.symm.trans hsame)⟩

namespace Transfer

theorem leads_openStretch (t : Transfer) (o : UInt16) (left : Nat) (r : Rig Board) :
    (t.openStretch o left r).1.Leads t.channel.bank o := by
  refine ⟨rfl, ?_⟩
  rw [source_openStretch]
  cases hp : (Buses.blockPointer (.of t.channel.bank o) r.buses).1 with
  | none => exact .inl rfl
  | some base => exact .inr ⟨base, rfl, fun o' hsame => Board.points_of_blockPointer hp hsame⟩

/-- Where a transfer to the registers stands with `n` bytes to go. -/
structure Sends (t : Transfer) (n : Nat) (place : UnitCursor) (position : UInt16) (s : Stretch)
    (r : Rig Board) : Prop where
  mode : place.mode = t.channel.mode
  address : (r.channel t.id).address = position
  said : r.Said Board.workRamTaken s.taken
  closes : t.step.Closes position s.left
  enough : t.step = .hold → n ≤ s.left
  leads : 0 < s.left → s.Leads t.channel.bank position
  routed : s.Routed t.channel

/-- Where a transfer stands with `n` bytes to go.  One to the A-bus that settles the use of work RAM
byte by byte has not said anything yet. -/
def Stands (t : Transfer) (n : Nat) : Progress → Rig Board → Prop
  | .idle, _ => True
  | .collecting _, r =>
    t.channel.mayMeetWorkRamPort = false →
      r.Said Board.workRamTaken (isWorkRamBank t.channel.bank)
  | .sending place position s, r => t.Sends n place position s r

/-- What is true when the next byte is ready to move. -/
def Ready (t : Transfer) (n : Nat) : Progress → Rig Board → Prop
  | .idle, _ => True
  | .collecting _, r =>
    r.Said Board.workRamTaken
      (if t.channel.mayMeetWorkRamPort then decide ((r.channel t.id).address < 0x2000)
      else isWorkRamBank t.channel.bank)
  | .sending place position s, r => t.Sends n place position s r ∧ 0 < s.left

variable {t : Transfer} {n : Nat}

/-- A transfer stands so when it begins, unless the stream decoder supplies its bytes. -/
theorem stands_begin (t : Transfer) {r : Rig Board} (hchannel : r.channel t.id = t.channel)
    (hstep : t.step = t.channel.control.step) :
    t.Stands t.channel.length (t.begin false r).1 (t.begin false r).2 := by
  unfold begin
  split
  · unfold beginCollecting
    intro hmeets
    dsimp only
    rw [if_neg (by rw [hmeets]; exact Bool.false_ne_true)]
    exact .say Board.heeds _ r
  · -- Not a byte has been sent, and the first stretch has just been opened.
    have hcloses := t.closes_firstStretch t.channel.address
    have hwhole := t.length_le_firstStretch t.channel.address
    rw [← hstep] at hcloses hwhole
    have hkept := (Host.keeps_openStretch t t.channel.address
      (t.firstStretch t.channel.address) r).channel t.id
    exact ⟨rfl, congrArg Channel.address (hkept.trans hchannel),
      t.said_openStretch Board.heeds _ _ r, hcloses, hwhole, fun _ => t.leads_openStretch _ _ r,
      t.routed_openStretch _ _ r⟩

theorem Stands.poise {progress : Progress} {r : Rig Board} (h : t.Stands (n + 1) progress r) :
    t.Ready (n + 1) (t.poise progress r).1 (t.poise progress r).2 := by
  cases progress with
  | idle => trivial
  | collecting place =>
      unfold Ready Transfer.poise
      dsimp only
      cases hmeets : t.channel.mayMeetWorkRamPort with
      | true => exact .say Board.heeds _ r
      | false => exact h hmeets
  | sending place position s =>
      obtain ⟨hmode, haddress, hsaid, hcloses, henough, hleads, hrouted⟩ := h
      show t.Sends (n + 1) place position (t.currentStretch s r).1 (t.currentStretch s r).2 ∧
        0 < (t.currentStretch s r).1.left
      unfold currentStretch
      by_cases hleft : s.left = 0
      · rw [if_pos hleft, haddress]
        rw [hleft] at hcloses henough
        refine ⟨⟨hmode, ?_, t.said_openStretch Board.heeds position blockSize r, hcloses.reopen, ?_,
          fun _ => t.leads_openStretch position blockSize r,
          t.routed_openStretch position blockSize r⟩, ?_⟩
        · rw [(Host.keeps_openStretch t position blockSize r).channel]
          exact haddress
        · -- A transfer that stays put has all its bytes in the first stretch.
          intro hhold
          have := henough hhold
          omega
        · show 0 < blockSize
          decide
      · rw [if_neg hleft]
        exact ⟨⟨hmode, haddress, hsaid, hcloses, henough, hleads, hrouted⟩,
          Nat.pos_of_ne_zero hleft⟩

/-- A byte of a stretch is sent, and the place, the position and the stretch move on. -/
theorem Sends.byteSent {place : UnitCursor} {position : UInt16} {s : Stretch} {r : Rig Board}
    (h : t.Sends (n + 1) place position s r) (hpos : 0 < s.left) :
    t.Sends n place.advance (position + t.step.word) { s with left := s.left - 1 }
      ((t.carry (.sending place position s) r).modifyChannel t.id (·.countDown t.step)) := by
  obtain ⟨hmode, haddress, hsaid, hcloses, henough, hleads, hrouted⟩ := h
  obtain ⟨left, hleft⟩ : ∃ left, s.left = left + 1 := ⟨s.left - 1, by omega⟩
  have hcarried := t.said_carry Board.heeds (.sending place position s) hsaid
  have hcontroller := t.controller_carry (.sending place position s) r
  generalize t.carry (.sending place position s) r = moved at hcarried hcontroller ⊢
  rw [hleft] at hcloses henough ⊢
  refine ⟨hmode, ?_, ⟨hcarried.buses, hcarried.controller⟩, hcloses.step, ?_, ?_, hrouted⟩
  · rw [Rig.channel_modifyChannel, if_pos rfl, Rig.channel, hcontroller, ← haddress]
    rfl
  · intro hhold
    have := henough hhold
    show n ≤ left + 1 - 1
    omega
  · intro hmore
    change 0 < left at hmore
    obtain ⟨left', rfl⟩ : ∃ left', left = left' + 1 := ⟨left - 1, by omega⟩
    exact (hleads hpos).congr hcloses.sameBlock _

theorem Stands.byteDone {progress : Progress} {h : Console} (hs : t.Stands (n + 1) progress h.rig) :
    t.Stands n (t.moveByte progress h.rig).1 (h.byteDone t progress).rig := by
  have hready := hs.poise
  unfold Host.byteDone
  rw [moveByte_snd]
  cases progress with
  | idle => trivial
  | collecting place =>
      intro hmeets
      have hsaid := t.said_carry Board.heeds (t.poise (.collecting place) h.rig).1 hready
      rw [hmeets, if_neg Bool.false_ne_true] at hsaid
      exact ⟨hsaid.buses, hsaid.controller⟩
  | sending place position s => exact Sends.byteSent hready.1 hready.2

end Transfer

/-! ### What events leave alone -/

/-- The rig is as it was as far as a general transfer of channel `i` goes by it. -/
structure Rig.Spares (i : ChannelId) (r r' : Rig Board) : Prop where
  address : (r'.channel i).address = (r.channel i).address
  said : ∀ {word}, r.Said Board.workRamTaken word → r'.Said Board.workRamTaken word

theorem Rig.Spares.trans {i : ChannelId} {r r' r'' : Rig Board} (h : r.Spares i r')
    (h' : r'.Spares i r'') : r.Spares i r'' :=
  ⟨h'.address.trans h.address, fun hsaid => h'.said (h.said hsaid)⟩

namespace Beam

theorem spares_fire (h : Console) (i : ChannelId) : h.rig.Spares i (fire h).rig :=
  ⟨address_fire h i, fun {word} hsaid =>
    fire_induction (P := fun r => r.Said Board.workRamTaken word) hsaid
      (hsaid.frame Board.heeds) (hsaid.line Board.heeds _)
      fun _ => ⟨hsaid.buses, hsaid.controller⟩⟩

end Beam

theorem Console.spares_passByte (h : Console) (i : ChannelId) :
    h.rig.Spares i (h.passByte i).2.rig := by
  have hsettled : h.rig.Spares i (h.spend slowAccess).settle.rig :=
    Host.settleWithin_induction (P := fun e : Console => h.rig.Spares i e.rig)
      (fun e he => he.trans (Beam.spares_fire e i)) settleLimit (h := h.spend slowAccess)
      ⟨rfl, fun hsaid => ⟨hsaid.buses, hsaid.controller⟩⟩
  exact hsettled.trans ⟨rfl, fun hsaid => ⟨hsaid.buses, hsaid.controller⟩⟩

theorem Transfer.Stands.congr {t : Transfer} {n : Nat} {progress : Progress} {r r' : Rig Board}
    (h : t.Stands n progress r) (hr : r.Spares t.id r') : t.Stands n progress r' := by
  cases progress with
  | idle => trivial
  | collecting place => exact fun hmeets => hr.said (h hmeets)
  | sending place position s =>
      exact ⟨h.mode, hr.address.trans h.address, hr.said h.said, h.closes, h.enough, h.leads,
        h.routed⟩

/-! ### One byte -/

/-- What goes to the port takes its own entrance or the ordinary route. -/
theorem Stretch.Routed.of_port {c : Channel} {s : Stretch} (hr : s.Routed c) {k : Nat}
    (hport : c.register (c.mode.offsets.getD k 0) = 0x2180) :
    s.route = .ordinary ∨ s.route = .workRam := by
  have hregister := hr.registers k
  rw [hport] at hregister
  generalize c.mode.offsets.getD k 0 = o at hregister
  generalize s.route = route at hregister ⊢
  cases route with
  | ordinary => exact .inl rfl
  | workRam => exact .inr rfl
  | sprite => exact absurd (List.singleton_inj.mp hregister) (by decide)
  | colour => exact absurd (List.singleton_inj.mp hregister) (by decide)
  | video high remapped =>
      have hsame := List.singleton_inj.mp hregister
      cases high <;> exact absurd hsame (by decide)
  | videoPair remapped =>
      have hsame := List.singleton_inj.mp hregister
      split at hsame <;> exact absurd hsame (by decide)

namespace Transfer

variable {t : Transfer} {n : Nat}

/-- A byte of a stretch is fetched from the cell of its position, also by direct access, and what
the board was told stays. -/
theorem fetch_leads {position : UInt16} {s : Stretch} (hleads : s.Leads t.channel.bank position)
    (r : Rig Board) :
    ((s.source.direct position).map Pointer.cell).or (cellAt t.channel.bank position) =
        cellAt t.channel.bank position ∧
      (∀ n, cellAt t.channel.bank position = some n →
        (t.fetch s.source position r).1 = (t.fetch s.source position r).2.buses.memory.get n) ∧
      (t.fetch s.source position r).2.buses.workRamTaken = r.buses.workRamTaken := by
  rcases hleads.source with hmapped | ⟨base, hblock, hpoints⟩
  · rw [hmapped]
    exact ⟨rfl, fun n hn => Rig.read_cell rfl hn, Rig.taken_read Board.heeds r _⟩
  · rw [hblock]
    have hcell := Board.cell_of_points (hpoints position rfl)
    refine ⟨hcell, fun n hn => ?_, Rig.taken_peek Board.heeds r _⟩
    rw [← hcell, Option.some_inj] at hn
    rw [← hn]
    rfl

/-- What a stretch sends to the port obeys what the board was told. -/
theorem obeys_deliver {s : Stretch} (hr : s.Routed t.channel) {k : Nat}
    (hport : t.channel.register (t.channel.mode.offsets.getD k 0) = 0x2180) (bank : UInt8)
    (o : UInt16) (direct : Option Pointer) (v : UInt8) {r : Rig Board}
    (htaken : r.buses.workRamTaken = s.taken) :
    Crossing.Obeys s.taken ⟨bank, o, direct, 0x2180, false, v, r.buses,
      (s.route.deliver 0x2180 (t.channel.mode.offsets.getD k 0) v s.taken r).buses⟩ := by
  have hwritten := Board.obeys_writeRegister bank o direct v r.buses
  rw [htaken] at hwritten
  rcases hr.of_port hport with hroute | hroute
  · rw [hroute]
    exact hwritten
  · rw [hroute]
    cases ht : s.taken with
    | false =>
        rw [ht] at hwritten
        exact hwritten
    | true => exact ⟨nofun, fun _ => ⟨rfl, rfl, nofun⟩⟩

/-- A byte that is ready to move is fetched from its cell and lies where its channel says, and the
port goes by that. -/
theorem Ready.crossing {progress : Progress} {r : Rig Board} (h : t.Ready n progress r)
    {b : Crossing Board} (hb : t.crossing progress r = some b) : b.Sound ∧ b.Settled := by
  cases progress with
  | idle => cases hb
  | collecting place =>
      cases hb
      refine ⟨⟨nofun, fun hport => ?_⟩, rfl⟩
      have hregister : t.channel.register place.offset = 0x2180 := hport
      have htaken := h.buses
      rw [← Channel.isWorkRam_of_port place.offset_le hregister] at htaken
      dsimp only
      rw [hregister, ← htaken]
      exact Board.obeys_readRegister _ _ _ r.buses
  | sending place position s =>
      obtain ⟨⟨hmode, haddress, hsaid, -, -, hleads, hrouted⟩, hpos⟩ := h
      have hleads := hleads hpos
      obtain ⟨hcell, hvalue, htaken⟩ := t.fetch_leads hleads r
      obtain ⟨mode, step⟩ := place
      obtain rfl : mode = t.channel.mode := hmode
      cases hb
      rw [haddress]
      refine ⟨⟨fun _ n hn => hvalue n (hcell.symm.trans hn), fun hport => ?_⟩, hcell⟩
      have hregister : t.channel.register (t.channel.mode.offsets.getD step 0) = 0x2180 := hport
      have hsent : t.carry (.sending ⟨t.channel.mode, step⟩ position s) r =
          s.route.deliver (t.channel.register (t.channel.mode.offsets.getD step 0))
            (t.channel.mode.offsets.getD step 0) (t.fetch s.source position r).1 s.taken
            (t.fetch s.source position r).2 := rfl
      have hobeys := t.obeys_deliver hrouted hregister t.channel.bank position
        (s.source.direct position) (t.fetch s.source position r).1 (htaken.trans hsaid.buses)
      rw [← hregister, ← hsent, hleads.taken] at hobeys
      exact hobeys

end Transfer

/-! ### Whole transfers -/

namespace Console

/-- Ahead of each of its bytes a transfer stands as it should. -/
theorem stands_bytesAhead (t : Transfer) (n : Nat) {progress : Progress} {h : Console}
    (hs : t.Stands n progress h.rig) :
    ∀ ahead ∈ Host.bytesAhead t n progress h, ∃ k, t.Stands (k + 1) ahead.1 ahead.2.rig := by
  induction n generalizing progress h with
  | zero => exact List.forall_mem_nil _
  | succ n ih =>
      refine List.forall_mem_cons.mpr ⟨⟨n, hs⟩, ?_⟩
      split
      · exact ih (hs.byteDone.congr (spares_passByte _ t.id))
      · exact List.forall_mem_nil _

/-- So it does when it has been prepared, unless the stream decoder supplies its bytes. -/
theorem stands_prepare {h : Console} (hdecoder : h.rig.controller.settings.decoderFitted = false)
    (i : ChannelId) :
    (h.prepare i).1.Stands (h.rig.channel i).length (h.prepare i).2.1 (h.prepare i).2.2.rig := by
  have hplain :
      ((h.rig.channel i).control.fixed && (h.noteStart i).takeDecoderReady.1) = false := by
    have hfitted : (h.noteStart i).rig.controller.settings.decoderFitted = false := hdecoder
    rw [Host.takeDecoderReady_fst, hfitted, Bool.false_and, Bool.and_false]
  obtain ⟨d, hready⟩ := (h.noteStart i).takeDecoderReady_snd
  unfold Host.prepare
  dsimp only
  split
  · trivial
  rw [hplain, hready, if_neg Bool.false_ne_true]
  exact Transfer.stands_begin ⟨i, h.rig.channel i, (h.rig.channel i).control.step⟩ rfl rfl

/-- All bytes of a general transfer are fetched from their cells and lie where their channel says,
and the port goes by that. -/
theorem sound_crossings {h : Console} (hdecoder : h.rig.controller.settings.decoderFitted = false)
    (i : ChannelId) : ∀ b ∈ h.crossings i, b.Sound ∧ b.Settled := by
  have hprepared := stands_prepare hdecoder i
  unfold Host.crossings
  generalize h.prepare i = prepared at hprepared ⊢
  obtain ⟨t, progress, start⟩ := prepared
  intro b hb
  obtain ⟨ahead, hahead, hb⟩ := List.mem_filterMap.mp hb
  obtain ⟨k, hstands⟩ := stands_bytesAhead t _ hprepared ahead hahead
  exact hstands.poise.crossing hb

/-! ### The settings of a run -/

theorem settings_idleUntil (stop : Console → Bool) (limit : Nat) (m : Console) :
    (m.idleUntil stop limit).rig.controller.settings = m.rig.controller.settings :=
  idleUntil_induction (P := fun r => r.controller.settings = m.rig.controller.settings)
    (fun _ h => h) (fun h => (Beam.settings_fire _).trans h) stop limit rfl

theorem settings_runChannel (h : Console) (i : ChannelId) :
    (h.runChannel i).2.rig.controller.settings = h.rig.controller.settings :=
  Host.decoder_runChannel (P := fun s _ => s = h.rig.controller.settings)
    (fun e he => (Beam.settings_fire e).trans he) h i rfl

/-- Neither does a row of transfers change the settings, and so each of them finds them the same. -/
theorem settings_startChannels (m : Console) (mask : ChannelMask) :
    (m.startChannels mask).rig.controller.settings = m.rig.controller.settings ∧
      ∀ t ∈ m.started mask, t.1.rig.controller.settings = m.rig.controller.settings := by
  unfold Host.startChannels started
  split
  · exact ⟨rfl, List.forall_mem_nil _⟩
  · exact Rig.foldl_turnsOf
      (P := fun h : Console => h.rig.controller.settings = m.rig.controller.settings)
      (Q := fun _ => True) (fun h i hh _ => (settings_runChannel h i).trans hh) mask.toList
      (s := m.spend m.rig.controller.settings.syncDelay) rfl fun _ _ => trivial

end Console

namespace Operation

theorem settings_run (op : Operation) (m : Console) :
    (op.run m).rig.controller.settings = m.rig.controller.settings ∧
      ∀ t ∈ op.transfers m, t.1.rig.controller.settings = m.rig.controller.settings := by
  cases op with
  | write a v =>
      rw [transfers]
      by_cases hstart : Console.isControllerAddress a = true ∧ Address.offset a = 0x420B
      · rw [if_pos hstart]
        show (m.write a v).rig.controller.settings = _ ∧ _
        rw [Console.write_of_start hstart]
        exact m.settings_startChannels ⟨v⟩
      · rw [if_neg hstart]
        exact ⟨(Console.time_write hstart v).2.2, List.forall_mem_nil _⟩
  | transfer i =>
      exact ⟨m.settings_runChannel i, fun t ht => by rw [List.mem_singleton.mp ht]⟩
  | lines n => exact ⟨Console.settings_idleUntil _ _ m, List.forall_mem_nil _⟩
  | frame => exact ⟨Console.settings_idleUntil _ _ m, List.forall_mem_nil _⟩
  | load a bytes => exact ⟨rfl, List.forall_mem_nil _⟩
  | reset => exact ⟨rfl, List.forall_mem_nil _⟩

end Operation

/-! ### Runs -/

namespace Console

/-- The general transfers of a run, each with the console at its start. -/
def transfers : Console → List Operation → List (Console × ChannelId)
  | _, [] => []
  | m, op :: ops => op.transfers m ++ (op.run m).transfers ops

/-- The crossings of all general transfers of a run. -/
def transferCrossings (m : Console) (ops : List Operation) : List (Crossing Board) :=
  (m.transfers ops).flatMap fun t => t.1.crossings t.2

/-- The crossings of all turns of channel `i` in a run. -/
def turnCrossings (i : ChannelId) (m : Console) (ops : List Operation) : List (Crossing Board) :=
  ((m.units ops).filter fun turn => turn.2 = i).flatMap fun turn => turn.1.crossings i

theorem settings_transfers (ops : List Operation) (m : Console) :
    ∀ t ∈ m.transfers ops, t.1.rig.controller.settings = m.rig.controller.settings := by
  induction ops generalizing m with
  | nil => exact List.forall_mem_nil _
  | cons op ops ih =>
      obtain ⟨hrun, htransfers⟩ := op.settings_run m
      exact List.forall_mem_append.mpr ⟨htransfers, fun t ht => (ih _ t ht).trans hrun⟩

theorem sound_transferCrossings (ops : List Operation) {m : Console}
    (hdecoder : m.rig.controller.settings.decoderFitted = false) :
    ∀ b ∈ m.transferCrossings ops, b.Sound ∧ b.Settled := by
  intro b hb
  obtain ⟨t, ht, hb⟩ := List.mem_flatMap.mp hb
  exact sound_crossings (m.settings_transfers ops t ht ▸ hdecoder) t.2 b hb

theorem sound_turnCrossings (i : ChannelId) (m : Console) (ops : List Operation) :
    ∀ b ∈ m.turnCrossings i ops, b.Sound := by
  intro b hb
  obtain ⟨turn, -, hb⟩ := List.mem_flatMap.mp hb
  exact turn.1.sound_crossings i b hb

theorem settled_turnCrossings {i : ChannelId} {m : Console} {ops : List Operation}
    (hf : m.rig.Fresh i) (hs : m.Spares i ops) : ∀ b ∈ m.turnCrossings i ops, b.Settled := by
  intro b hb
  obtain ⟨turn, hturn, hb⟩ := List.mem_flatMap.mp hb
  obtain ⟨hturn, hi⟩ := List.mem_filter.mp hturn
  have hi : turn.2 = i := by simpa using hi
  exact Rig.settled_crossings ((fresh_of_spares ops hf hs).2 turn hturn hi) b hb

end Console

theorem Crossing.Sound.exclusive {b : Crossing Board} (h : b.Sound) (hsettled : b.Settled)
    (hport : b.register = 0x2180) : b.Exclusive :=
  (h.obeys hport).exclusive_iff.mpr hsettled.inWorkRam_eq

/-- Wherever bytes go to the work RAM port or come from it in a run from power-on, the port goes by
the place that their channel says: it serves the bytes that lie outside of work RAM, and keeps still
for those inside.  All bytes of general transfers lie there, and so do the bytes that a channel
sends in its turns if all operations spare it.  Any byte at all that lies elsewhere still is
`Exclusive` if and only if both places are in work RAM or both are not.  The run goes by these
crossings: they leave the buses as it does behind each byte of a general transfer, and behind each
turn of a channel. -/
theorem port_exclusive {settings : Settings} (hdecoder : settings.decoderFitted = false)
    (ops : List Operation) :
    (∀ b ∈ (Console.powerOn settings).transferCrossings ops,
        b.Fetched ∧ b.Settled ∧ (b.register = 0x2180 → b.Exclusive)) ∧
      (∀ i, ∀ b ∈ (Console.powerOn settings).turnCrossings i ops,
        b.Fetched ∧ ((Console.powerOn settings).Spares i ops → b.Settled) ∧
          (b.register = 0x2180 →
            b.Obeys (isWorkRam b.bank b.offset) ∧
              (b.Exclusive ↔ b.inWorkRam = isWorkRam b.bank b.offset) ∧
              ((Console.powerOn settings).Spares i ops → b.Exclusive))) ∧
      (∀ t ∈ (Console.powerOn settings).transfers ops,
        (t.1.crossings t.2).map Crossing.arrived =
          if (t.1.rig.channel t.2).feedsWorkRamItself then []
          else (t.1.transferNotes (fun e => [e]) t.2).map fun byte => byte.1.rig.buses) ∧
      ∀ turn ∈ (Console.powerOn settings).units ops,
        (turn.1.sendInTurn turn.2).buses =
          ((turn.1.crossings turn.2).map Crossing.arrived).getLastD
            (turn.1.inTurn turn.2).buses := by
  refine ⟨fun b hb => ?_, fun i b hb => ?_, fun t _ => t.1.arrived_crossings t.2,
    fun turn _ => turn.1.buses_sendInTurn turn.2⟩
  · obtain ⟨hsound, hsettled⟩ := Console.sound_transferCrossings ops hdecoder b hb
    exact ⟨hsound.fetched, hsettled, hsound.exclusive hsettled⟩
  · have hsound := Console.sound_turnCrossings i _ ops b hb
    have hsettled : (Console.powerOn settings).Spares i ops → b.Settled := fun hs =>
      Console.settled_turnCrossings (Console.fresh_powerOn settings i) hs b hb
    refine ⟨hsound.fetched, hsettled, fun hport => ?_⟩
    exact ⟨hsound.obeys hport, (hsound.obeys hport).exclusive_iff,
      fun hs => hsound.exclusive (hsettled hs) hport⟩

/-- Two general transfers reach the port with their second byte, the one out of read-only memory and
the other out of the start of work RAM as a system bank shows it; and a table in work RAM sends its
bytes there line by line. -/
def toPort : List Operation :=
  [.load 0xC02000 [0x11, 0x22], .load 0x7E0010 [0x33, 0x44],
    .load 0x7E1000 [0x82, 0x55, 0x66, 0x00],
    .write 0x4300 0x00, .write 0x4301 0x80, .write 0x4302 0x00, .write 0x4303 0x10,
    .write 0x4304 0x7E, .write 0x420C 0x01,
    .write 0x4310 0x01, .write 0x4311 0x7F, .write 0x4312 0x00, .write 0x4313 0x20,
    .write 0x4314 0xC0, .write 0x4315 0x02, .write 0x4316 0x00,
    .write 0x4320 0x01, .write 0x4321 0x7F, .write 0x4322 0x10, .write 0x4323 0x00,
    .write 0x4324 0x00, .write 0x4325 0x02, .write 0x4326 0x00, .write 0x420B 0x06, .lines 2]

/-- The port serves the byte that lies in read-only memory, and none of the others. -/
theorem toPort_exclusive :
    let m := Console.powerOn .standard
    (m.transferCrossings toPort).map (fun b => (b.register, b.value, b.after.workAddress)) =
        [(0x217F, 0x11, 0), (0x2180, 0x22, 1), (0x217F, 0x33, 1), (0x2180, 0x44, 1)] ∧
      (m.turnCrossings 0 toPort).map (fun b => (b.register, b.value, b.after.workAddress)) =
        [(0x2180, 0x55, 1), (0x2180, 0x66, 1)] ∧
      ∀ b ∈ m.transferCrossings toPort ++ m.turnCrossings 0 toPort,
        b.register = 0x2180 → b.Exclusive := by
  intro m
  have hdecoder : Settings.standard.decoderFitted = false := rfl
  obtain ⟨htransfers, hturns, -, -⟩ := port_exclusive hdecoder toPort
  have hspares : m.Spares 0 toPort := Console.spares_of_fresh toPort (by decide +kernel)
  refine ⟨by decide +kernel, by decide +kernel, fun b hb hport => ?_⟩
  rcases List.mem_append.mp hb with hb | hb
  · exact (htransfers b hb).2.2 hport
  · exact ((hturns 0 b hb).2.2 hport).2.2 hspares

/-- A table in work RAM sends its bytes to the port; after a line its bank is changed to one of
read-only memory. -/
def astray : List Operation :=
  [.load 0x7E1000 [0x83, 0xAA, 0xBB, 0xCC, 0x00], .load 0xC01002 [0xEE],
    .write 0x4300 0x00, .write 0x4301 0x80, .write 0x4302 0x00, .write 0x4303 0x10,
    .write 0x4304 0x7E, .write 0x420C 0x01, .lines 1, .write 0x4304 0xC0, .lines 1]

/-- The channel still fetches its next byte out of work RAM, while the board is told that it does
not: work RAM serves this byte on both buses. -/
theorem astray_served_twice :
    ∃ b ∈ (Console.powerOn .standard).turnCrossings 0 astray,
      b.register = 0x2180 ∧ b.cell = some 0x7E1002 ∧ b.value = 0xBB ∧
        b.before.workAddress = 0 ∧ b.after.workAddress = 1 ∧
        b.before.memory.get 0x7E0000 = 0x00 ∧ b.after.memory.get 0x7E0000 = 0xBB ∧
        b.inWorkRam = true ∧ ¬ b.Exclusive := by
  obtain ⟨b, hb, hport, hcell, hvalue, hbefore, hafter, hempty, hfilled, hin⟩ :
      ∃ b ∈ (Console.powerOn .standard).turnCrossings 0 astray,
        b.register = 0x2180 ∧ b.cell = some 0x7E1002 ∧ b.value = 0xBB ∧
          b.before.workAddress = 0 ∧ b.after.workAddress = 1 ∧
          b.before.memory.get 0x7E0000 = 0x00 ∧ b.after.memory.get 0x7E0000 = 0xBB ∧
          b.inWorkRam = true := by
    decide +kernel
  refine ⟨b, hb, hport, hcell, hvalue, hbefore, hafter, hempty, hfilled, hin, fun hb => ?_⟩
  have hstill := (hb.missed hin).workAddress
  rw [hbefore, hafter] at hstill
  cases hstill

end DmaController
