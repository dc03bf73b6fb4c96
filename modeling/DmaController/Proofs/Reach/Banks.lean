import DmaController.Bench.Recorder
import DmaController.Console.Beam
import DmaController.Proofs.LineTransfer.Units
import DmaController.Proofs.Transfer.Events

/-! # Which banks a controller reaches

A channel has one bank for its table and for general transfers, and another one for indirect data.
Offsets go round at the end of a bank, so a channel should never leave its two.  `BusCall.place?`
picks the places on the A-bus out of a notebook, and `Rig.Asks` says which ones were asked for.

A general transfer keeps to the bank of its channel (`asksOnly_runChannel`).  In its turn of
sending, a channel asks for the places of its unit, one after the other and round the end of the
bank (`asks_sendInTurn`).  A header is one byte of the table, with a word behind it where the data
is indirect (`asks_fetchHeader`).

That word is where a channel may leave its bank.  It is fetched as two bytes of the whole address
space, so the second one is looked for in the next bank when the first is the last of its own.  The
headers of frames and lines keep to the table if and only if no word lies so
(`banks_kept_iff`). -/

namespace DmaController

/-- A place on the A-bus: an address, or wherever a pointer leads. -/
inductive Place where
  | mapped (a : Address)
  | direct (p : Pointer)
deriving DecidableEq, Repr

/-- The places in a bank: its addresses, and what is counted by one of its offsets from a pointer
that was given for a block of the bank. -/
inductive Place.InBank (β : Type) [Buses β] (bank : UInt8) : Place → Prop
  | mapped (offset : UInt16) : InBank β bank (.mapped (.of bank offset))
  | direct {b : β} {opened : UInt16} {base : Pointer} (position : UInt16)
      (given : (Buses.blockPointer (.of bank opened) b).1 = some base) :
      InBank β bank (.direct (base.offset position.toUInt64))

/-- The place that a request is about. -/
def BusCall.place? : BusCall → Option Place
  | read a _ => some (.mapped a)
  | write a _ => some (.mapped a)
  | blockPointer a => some (.mapped a)
  | bytePointer a => some (.mapped a)
  | peek p _ => some (.direct p)
  | _ => none

namespace Address

/-- The address behind `bank:offset` in the same bank. -/
def nextInBank (bank : UInt8) (offset : UInt16) : Address := .of bank (offset + 1)

/-- The address behind `bank:offset` in the whole address space. -/
def nextOverall (bank : UInt8) (offset : UInt16) : Address :=
  (Address.of bank offset + 1) % 0x1000000

theorem of_mod (bank : UInt8) (offset : UInt16) :
    Address.of bank offset % 0x1000000 = .of bank offset := by
  have hb := bank.toNat_lt
  have ho := offset.toNat_lt
  apply UInt32.toNat_inj.mp
  rw [UInt32.toNat_mod, toNat_of]
  simp only [UInt32.reduceToNat]
  omega

/-- Only behind the last byte of a bank does it make a difference what is counted. -/
theorem nextInBank_eq_iff (bank : UInt8) (offset : UInt16) :
    nextInBank bank offset = nextOverall bank offset ↔ offset ≠ 0xFFFF := by
  have hb := bank.toNat_lt
  have ho := offset.toNat_lt
  rw [nextInBank, nextOverall, ← UInt32.toNat_inj, Ne, ← UInt16.toNat_inj, UInt32.toNat_mod,
    UInt32.toNat_add, toNat_of, toNat_of, UInt16.toNat_add]
  simp only [UInt32.reduceToNat, UInt16.reduceToNat]
  omega

end Address

namespace Rig

/-- From `r` to `r'` these places were asked for, in this order. -/
def Asks {β : Type} (r r' : Rig (Traced β)) (places : List Place) : Prop :=
  Traced.Calls BusCall.place? r.buses r'.buses places

/-- From `r` to `r'` no other places were asked for than those with `P`. -/
def AsksOnly {β : Type} (P : Place → Prop) (r r' : Rig (Traced β)) : Prop :=
  ∃ places, r.Asks r' places ∧ ∀ place ∈ places, P place

namespace Asks

variable {β : Type} {r r' r'' : Rig (Traced β)} {places places' : List Place}

theorem of_eq (h : r'.buses.calls = r.buses.calls) : r.Asks r' [] := Traced.Calls.of_eq h

theorem one {c : BusCall} (h : r'.buses.calls = r.buses.calls ++ [c]) :
    r.Asks r' (BusCall.place? c).toList := Traced.Calls.one h

theorem trans (h : r.Asks r' places) (h' : r'.Asks r'' places') :
    r.Asks r'' (places ++ places') := Traced.Calls.trans h h'

theorem iff_eq (h : r.Asks r' places) : r.Asks r' places' ↔ places' = places :=
  ⟨fun h' => Traced.Calls.unique h' h, fun e => e ▸ h⟩

theorem only {P : Place → Prop} (h : r.Asks r' places) (hplaces : ∀ place ∈ places, P place) :
    r.AsksOnly P r' := ⟨places, h, hplaces⟩

end Asks

namespace AsksOnly

variable {β : Type} {P Q : Place → Prop} {r r' r'' : Rig (Traced β)}

theorem of_eq (h : r'.buses.calls = r.buses.calls) : r.AsksOnly P r' :=
  (Asks.of_eq h).only (List.forall_mem_nil _)

theorem trans (h : r.AsksOnly P r') (h' : r'.AsksOnly P r'') : r.AsksOnly P r'' := by
  obtain ⟨places, hasks, hall⟩ := h
  obtain ⟨places', hasks', hall'⟩ := h'
  exact (hasks.trans hasks').only (List.forall_mem_append.mpr ⟨hall, hall'⟩)

theorem mono (h : r.AsksOnly P r') (hPQ : ∀ place, P place → Q place) : r.AsksOnly Q r' := by
  obtain ⟨places, hasks, hall⟩ := h
  exact hasks.only fun place hplace => hPQ place (hall place hplace)

end AsksOnly

end Rig

/-! ### Units -/

namespace Channel

/-- The direct access by which the next unit is sent, if it is sent so. -/
def directAccess (c : Channel) : Option Pointer :=
  if c.control.reverse || c.unitReachesBlockEnd then none else c.cache

/-- The place of byte `k` of the next unit. -/
def unitPlace (c : Channel) (k : Nat) : Place :=
  match c.directAccess with
  | some p => .direct (p.offset (UInt64.ofNat k))
  | none => .mapped (.of c.lineBank (c.lineOffset + UInt16.ofNat k))

end Channel

namespace Rig

variable {β : Type}

/-- Where channel `i` looks when it is to send: where its next unit begins, to be given direct
access to it, and where the bytes of a pending unit are. -/
def sendPlaces [Buses β] (r : Rig β) (i : ChannelId) : List Place :=
  let c := r.channel i
  let refreshed := (r.refreshCache i).channel i
  (if c.cache = none then [.mapped (.of c.lineBank c.lineOffset)] else []) ++
    if refreshed.pending then (List.range refreshed.mode.size).map refreshed.unitPlace else []

theorem asks_forUnit {mode : UnitMode} {step : Nat → UInt8 → Rig (Traced β) → Rig (Traced β)}
    {place : Nat → Place} (hstep : ∀ k o s, k < mode.size → Asks s (step k o s) [place k])
    (r : Rig (Traced β)) : r.Asks (r.forUnit mode step) ((List.range mode.size).map place) := by
  rw [List.range_eq_range', UnitMode.size, ← List.zipIdx_map_snd 0 mode.offsets, List.map_map,
    List.map_eq_flatMap]
  exact forUnit_run (R := Asks) (fun _ => .of_eq rfl) .trans hstep r

variable [Buses β]

theorem asks_setWorkRamTaken (taken : Bool) (r : Rig (Traced β)) :
    r.Asks (r.setWorkRamTaken taken) [] := .one (c := .setWorkRamTaken taken) rfl

theorem asks_bytePointer (a : Address) (r : Rig (Traced β)) :
    r.Asks (r.bytePointer a).2 [.mapped a] := .one (c := .bytePointer a) rfl

theorem asks_read (a : Address) (r : Rig (Traced β)) : r.Asks (r.read a).2 [.mapped a] :=
  .one (c := .read a _) rfl

theorem asks_readRegister (a : UInt16) (r : Rig (Traced β)) : r.Asks (r.readRegister a).2 [] :=
  .one (c := .readRegister a _ r.buses.taken) rfl

theorem asks_writeRegister (a : UInt16) (v : UInt8) (r : Rig (Traced β)) :
    r.Asks ((r.writeRegister a v).spend slowAccess) [] :=
  .one (c := .writeRegister a v r.buses.taken) rfl

theorem asks_peek (p : Pointer) (r : Rig (Traced β)) : r.Asks (r.peek p).2 [.direct p] :=
  .one (c := .peek p _) rfl

theorem asks_refreshCache (r : Rig (Traced β)) (i : ChannelId) :
    r.Asks (r.refreshCache i)
      (if (r.channel i).cache = none then
        [.mapped (.of (r.channel i).lineBank (r.channel i).lineOffset)] else []) := by
  cases h : (r.channel i).cache with
  | none =>
      rw [refreshCache_of_none h, if_pos rfl]
      exact asks_bytePointer _ r
  | some p =>
      rw [refreshCache_of_some h, if_neg (Option.some_ne_none p)]
      exact .of_eq rfl

theorem asks_pointSprites (c : Channel) (r : Rig (Traced β)) : r.Asks (r.pointSprites c) [] := by
  unfold pointSprites
  split
  · exact .one (c := .setSpriteAddress 0x10C) rfl
  · exact .of_eq rfl

section

variable {c : Channel} (r : Rig (Traced β))

theorem asks_collectUnit (h : c.directAccess = none) :
    r.Asks (r.collectUnit c) ((List.range c.mode.size).map c.unitPlace) := by
  refine asks_forUnit (fun k o s _ => ?_) r
  unfold Channel.unitPlace
  rw [h]
  have hsaid := s.asks_setWorkRamTaken (isWorkRam c.lineBank (c.lineOffset + UInt16.ofNat k))
  exact (hsaid.trans (asks_readRegister (c.register o) _)).trans (.one (c := .write _ _) rfl)

theorem asks_sendStraddling (h : c.directAccess = none) :
    r.Asks (r.sendStraddling c) ((List.range c.mode.size).map c.unitPlace) := by
  refine asks_forUnit (fun k o s _ => ?_) r
  unfold Channel.unitPlace
  rw [h]
  have hsaid := s.asks_setWorkRamTaken (isWorkRam c.lineBank (c.lineOffset + UInt16.ofNat k))
  exact (hsaid.trans (asks_read _ _)).trans (asks_writeRegister (c.register o) _ _)

theorem asks_sendMapped (h : c.directAccess = none) (hblock : c.unitReachesBlockEnd = false) :
    r.Asks (r.sendMapped c) ((List.range c.mode.size).map c.unitPlace) := by
  refine asks_forUnit (fun k o s hk => ?_) r
  have hinside : positionInBlock c.lineOffset + k < blockSize := by
    rw [Channel.unitReachesBlockEnd, decide_eq_false_iff_not] at hblock
    omega
  unfold Channel.unitPlace
  rw [h, ← Address.of_add_ofNat hinside]
  exact (asks_read _ s).trans (asks_writeRegister (c.register o) _ _)

theorem asks_sendDirect {p : Pointer} (h : c.directAccess = some p) :
    r.Asks (r.sendDirect c p) ((List.range c.mode.size).map c.unitPlace) := by
  refine asks_forUnit (fun k o s _ => ?_) r
  unfold Channel.unitPlace
  rw [h]
  have hpeeked := s.asks_peek (p.offset (UInt64.ofNat k))
  have hfloating (r : Rig (Traced β)) (v : UInt8) :
      r.Asks (r.modifyBuses (Buses.setOpenBus v)) [] := .one (c := .setOpenBus v) rfl
  dsimp only
  split
  · exact (hpeeked.trans (hfloating _ _)).trans (asks_writeRegister (c.register o) _ _)
  · exact hpeeked.trans (asks_writeRegister (c.register o) _ _)

end

/-- Whichever way a unit takes, its bytes are looked for where they are, one after the other. -/
theorem asks_sendUnit (r : Rig (Traced β)) (i : ChannelId) :
    r.Asks (r.sendUnit i) (r.sendPlaces i) := by
  have hrefreshed := r.asks_refreshCache i
  rw [sendUnit_eq]
  unfold sendPlaces
  dsimp only
  refine hrefreshed.trans ?_
  generalize r.refreshCache i = s
  generalize s.channel i = c
  have hpointed := s.asks_pointSprites c
  generalize s.pointSprites c = pointed at hpointed ⊢
  cases c.pending with
  | false => exact .of_eq rfl
  | true =>
      rw [Bool.not_true, if_neg Bool.false_ne_true, if_pos rfl]
      split
      · rename_i hreverse
        have haccess : c.directAccess = none := by simp [Channel.directAccess, hreverse]
        exact hpointed.trans (asks_collectUnit (pointed.setCache i none) haccess)
      split
      · rename_i hblock
        have haccess : c.directAccess = none := by simp [Channel.directAccess, hblock]
        exact hpointed.trans (asks_sendStraddling (pointed.setCache i none) haccess)
      rename_i hreverse hblock
      have haccess : c.directAccess = c.cache := by
        simp [Channel.directAccess, hreverse, hblock]
      have hsaid := hpointed.trans
        (pointed.asks_setWorkRamTaken (isWorkRam c.lineBank c.lineOffset))
      cases hcache : c.cache with
      | none =>
          exact hsaid.trans
            (asks_sendMapped _ (haccess.trans hcache) (Bool.not_eq_true _ ▸ hblock))
      | some p => exact hsaid.trans (asks_sendDirect _ (haccess.trans hcache))

/-- The addresses among them lie in the bank of the data. -/
theorem bank_of_mem_sendPlaces {r : Rig β} {i : ChannelId} {a : Address}
    (ha : .mapped a ∈ r.sendPlaces i) : a.bank = (r.channel i).lineBank := by
  have hunit {c : Channel} {k : Nat} (h : .mapped a = c.unitPlace k) : a.bank = c.lineBank := by
    unfold Channel.unitPlace at h
    split at h
    · cases h
    · cases h
      exact Address.bank_of _ _
  obtain ⟨p, hown⟩ := (r.recached_refreshCache i).own
  unfold sendPlaces at ha
  dsimp only at ha
  rw [hown] at ha
  rcases List.mem_append.mp ha with ha | ha
  · split at ha
    · cases List.mem_singleton.mp ha
      exact Address.bank_of _ _
    · cases ha
  · split at ha
    · obtain ⟨k, -, hk⟩ := List.mem_map.mp ha
      exact hunit (c := { r.channel i with cache := p }) hk.symm
    · cases ha

/-- The places of a turn of sending, before which nothing is known yet about work RAM. -/
theorem asks_sendInTurn (r : Rig (Traced β)) (i : ChannelId) :
    r.Asks (r.sendInTurn i) (((r.setWorkRamTaken false).setCurrent i).sendPlaces i) :=
  (r.asks_setWorkRamTaken false).trans
    (asks_sendUnit ((r.setWorkRamTaken false).setCurrent i) i)

end Rig

/-! ### Headers -/

/-- Where the word lies that a header brings with it, in an indirect table: behind the header, but
on it for the end of a table with no active channel `above`. -/
def Channel.wordAt (c : Channel) (above : Bool) : Header → Option UInt16
  | .stop =>
      if c.control.indirect then some (if above then c.table + 1 else c.table) else none
  | .entry .. => if c.control.indirect then some (c.table + 1) else none

/-- The places of the two bytes of a word, if there is one, when `next` leads from the first to
the second. -/
def wordPlaces (next : UInt8 → UInt16 → Address) (bank : UInt8) : Option UInt16 → List Place
  | some w => [.mapped (.of bank w), .mapped (next bank w)]
  | none => []

namespace Rig

variable {β : Type} [Buses β]

/-- Where the word lies that the next header of channel `i` brings with it. -/
def pointerWord (r : Rig β) (i : ChannelId) : Option UInt16 :=
  (r.channel i).wordAt (r.controller.active.anyAbove i)
    (Header.ofByte (r.read (.of (r.channel i).bank (r.channel i).table)).1)

/-- Where channel `i` looks when it fetches a header: the header, the word it brings with it, and
where the data of a new entry begins, to be given direct access to it. -/
def headerPlaces (next : UInt8 → UInt16 → Address) (r : Rig β) (i : ChannelId) : List Place :=
  let c := r.channel i
  let fetched := r.fetchHeader i
  let data :=
    if fetched.1 then [.mapped (.of c.lineBank (fetched.2.channel i).lineOffset)] else []
  .mapped (.of c.bank c.table) :: (wordPlaces next c.bank (r.pointerWord i) ++ data)

theorem asks_readWord (bank : UInt8) (w : UInt16) (r : Rig (Traced β)) :
    r.Asks (r.readWord (.of bank w)).2
      [.mapped (.of bank w), .mapped (Address.nextOverall bank w)] := by
  have hboth : r.Asks (r.readWord (.of bank w)).2
      [.mapped (Address.of bank w % 0x1000000), .mapped (Address.nextOverall bank w)] :=
    (r.asks_read _).trans (asks_read (Address.nextOverall bank w) _)
  rwa [Address.of_mod] at hboth

/-- The end of a table is followed by the fetch of a word, if the table is an indirect one. -/
theorem asks_endTable (r : Rig (Traced β)) (i : ChannelId) (above : Bool) :
    r.Asks (r.endTable i above)
      (wordPlaces Address.nextOverall (r.channel i).bank ((r.channel i).wordAt above .stop)) := by
  unfold endTable Channel.wordAt
  dsimp only
  cases (r.channel i).control.indirect with
  | true => exact asks_readWord (r.channel i).bank _ (r.spend _)
  | false => exact .of_eq rfl

theorem lineBank_fetchPlace (r : Rig β) (c : Channel) :
    (r.fetchPlace c).1.lineBank = c.lineBank := by
  unfold fetchPlace Channel.lineBank
  split <;> rfl

/-- An entry of an indirect table has its word fetched; then direct access is asked for where the
data begins. -/
theorem asks_openEntry (r : Rig (Traced β)) (i : ChannelId) (lines : UInt8) (repeats above : Bool) :
    r.Asks (r.openEntry i lines repeats)
      (wordPlaces Address.nextOverall (r.channel i).bank
          ((r.channel i).wordAt above (.entry lines repeats)) ++
        [.mapped (.of (r.channel i).lineBank
          ((r.openEntry i lines repeats).channel i).lineOffset)]) := by
  have hplaced : r.Asks (r.fetchPlace ((r.channel i).takeHeader lines repeats)).2
      (wordPlaces Address.nextOverall (r.channel i).bank
        ((r.channel i).wordAt above (.entry lines repeats))) := by
    unfold fetchPlace Channel.wordAt Channel.takeHeader
    dsimp only
    cases (r.channel i).control.indirect with
    | true => exact asks_readWord (r.channel i).bank _ (r.spend _)
    | false => exact .of_eq rfl
  have hbank := r.lineBank_fetchPlace ((r.channel i).takeHeader lines repeats)
  rw [openEntry_eq]
  dsimp only
  rw [channel_setChannel, if_pos rfl]
  generalize r.fetchPlace ((r.channel i).takeHeader lines repeats) = placed at hplaced hbank ⊢
  refine hplaced.trans ?_
  show placed.2.Asks (placed.2.bytePointer (.of placed.1.lineBank placed.1.lineOffset)).2
    [.mapped (.of ((r.channel i).takeHeader lines repeats).lineBank placed.1.lineOffset)]
  rw [← hbank]
  exact asks_bytePointer _ _

/-- A header is fetched from the table, and its word from two neighbouring addresses. -/
theorem asks_fetchHeader (r : Rig (Traced β)) (i : ChannelId) :
    r.Asks (r.fetchHeader i).2 (r.headerPlaces Address.nextOverall i) := by
  have hread := r.asks_read (.of (r.channel i).bank (r.channel i).table)
  unfold headerPlaces pointerWord
  rw [fetchHeader_eq]
  dsimp only
  cases Header.ofByte (r.read (.of (r.channel i).bank (r.channel i).table)).1 with
  | stop =>
      dsimp only
      rw [if_neg Bool.false_ne_true, List.append_nil]
      exact hread.trans (asks_endTable ((r.read _).2.spend slowAccess) i _)
  | entry lines repeats =>
      dsimp only
      rw [if_pos rfl]
      exact hread.trans (asks_openEntry ((r.read _).2.spend slowAccess) i lines repeats _)

theorem table_endTable (r : Rig β) (i : ChannelId) (above : Bool) :
    ((r.endTable i above).channel i).table =
      ((r.channel i).wordAt above .stop).elim ((r.channel i).table + 1) (· + 2) := by
  unfold endTable Channel.wordAt
  dsimp only
  cases (r.channel i).control.indirect with
  | true =>
      rw [if_pos rfl, if_pos rfl, channel_setChannel, if_pos rfl]
      rfl
  | false =>
      rw [if_neg Bool.false_ne_true, if_neg Bool.false_ne_true, channel_setChannel, if_pos rfl]
      rfl

theorem table_openEntry (r : Rig β) (i : ChannelId) (lines : UInt8) (repeats above : Bool) :
    ((r.openEntry i lines repeats).channel i).table =
      ((r.channel i).wordAt above (.entry lines repeats)).elim ((r.channel i).table + 1)
        (· + 2) := by
  rw [openEntry_eq, channel_setChannel, if_pos rfl]
  unfold fetchPlace Channel.wordAt Channel.takeHeader
  dsimp only
  cases (r.channel i).control.indirect <;> rfl

/-- The table goes on behind what was fetched. -/
theorem table_fetchHeader (r : Rig β) (i : ChannelId) :
    ((r.fetchHeader i).2.channel i).table =
      (r.pointerWord i).elim ((r.channel i).table + 1) (· + 2) := by
  unfold pointerWord
  rw [fetchHeader_eq]
  dsimp only
  cases Header.ofByte (r.read (.of (r.channel i).bank (r.channel i).table)).1 with
  | stop => exact table_endTable ((r.read _).2.spend slowAccess) i _
  | entry lines repeats =>
      exact table_openEntry ((r.read _).2.spend slowAccess) i lines repeats _

/-! ### Frames and lines -/

/-- The header that is fetched when channel `i` is prepared for a frame, with the rig at its
fetch. -/
def prepareFetches (r : Rig β) (i : ChannelId) : List (Rig β × ChannelId) :=
  if i ∈ r.controller.active then [(r.rewound i, i)] else []

/-- The header that is fetched when channel `i` steps on, with the rig at its fetch. -/
def stepFetches (r : Rig β) (i : ChannelId) : List (Rig β × ChannelId) :=
  if (r.channel i).nextLine.lines = 0 then [(r.modifyChannel i Channel.nextLine, i)] else []

/-- The headers that are fetched in a frame. -/
def frameFetches (r : Rig β) : List (Rig β × ChannelId) :=
  (turnsOf prepareChannel (List.finRange 8) r.openFrame).flatMap fun turn =>
    turn.1.prepareFetches turn.2

/-- The headers that are fetched in a line. -/
def lineFetches (r : Rig β) (m : ChannelMask) : List (Rig β × ChannelId) :=
  (turnsOf (fun s i => stepLine s.1 s.2 i) m.toList (m, r.sendLine m)).flatMap fun turn =>
    turn.1.2.stepFetches turn.2

/-- Where the channels look in a row of fetches. -/
def fetchPlaces (next : UInt8 → UInt16 → Address) (fetches : List (Rig β × ChannelId)) :
    List Place := fetches.flatMap fun fetch => fetch.1.headerPlaces next fetch.2

/-- Where the channels look in their turns of sending. -/
def sentPlaces (r : Rig β) (m : ChannelMask) : List Place :=
  (r.turns m).flatMap fun turn =>
    ((turn.1.setWorkRamTaken false).setCurrent turn.2).sendPlaces turn.2

theorem asks_prepareChannel (r : Rig (Traced β)) (i : ChannelId) :
    r.Asks (r.prepareChannel i) (fetchPlaces Address.nextOverall (r.prepareFetches i)) := by
  have hfetched : r.Asks ((r.rewound i).fetchHeader i).2
      ((r.rewound i).headerPlaces Address.nextOverall i) := asks_fetchHeader (r.rewound i) i
  unfold prepareFetches
  by_cases hi : i ∈ r.controller.active
  · rw [prepareChannel_of_mem hi, if_pos hi, fetchPlaces, List.flatMap_singleton]
    dsimp only
    split <;> exact hfetched
  · rw [prepareChannel_of_notMem hi, if_neg hi]
    exact .of_eq rfl

theorem asks_stepLine (running : ChannelMask) (r : Rig (Traced β)) (i : ChannelId) :
    r.Asks (stepLine running r i).2 (fetchPlaces Address.nextOverall (r.stepFetches i)) := by
  have hfetched : r.Asks ((r.modifyChannel i Channel.nextLine).fetchHeader i).2
      ((r.modifyChannel i Channel.nextLine).headerPlaces Address.nextOverall i) :=
    asks_fetchHeader (r.modifyChannel i Channel.nextLine) i
  rw [stepLine_eq]
  unfold stepFetches
  dsimp only
  split
  · rw [fetchPlaces, List.flatMap_singleton]
    split <;> exact hfetched
  · exact .of_eq rfl

/-- The fetches of a round lead to their places, one after the other. -/
theorem asks_fetches {σ : Type} (rig : σ → Rig (Traced β)) {f : σ → ChannelId → σ}
    (fetches : σ × ChannelId → List (Rig (Traced β) × ChannelId))
    (hturn : ∀ s i, (rig s).Asks (rig (f s i)) (fetchPlaces Address.nextOverall (fetches (s, i))))
    (l : List ChannelId) (s : σ) :
    (rig s).Asks (rig (l.foldl f s))
      (fetchPlaces Address.nextOverall ((turnsOf f l s).flatMap fetches)) := by
  refine foldl_run (R := fun s s' fetches =>
    (rig s).Asks (rig s') (fetchPlaces Address.nextOverall fetches)) (fun _ => .of_eq rfl)
    (fun h h' => ?_) l fun turn _ => hturn turn.1 turn.2
  unfold fetchPlaces
  rw [List.flatMap_append]
  exact h.trans h'

theorem asks_beginFrame (r : Rig (Traced β)) :
    r.Asks r.beginFrame (fetchPlaces Address.nextOverall r.frameFetches) := by
  have hopened : r.Asks r.openFrame [] := .of_eq (congrArg Traced.calls r.buses_openFrame)
  rw [beginFrame_eq]
  exact hopened.trans (asks_fetches (fun s => s) (fun turn => turn.1.prepareFetches turn.2)
    asks_prepareChannel (List.finRange 8) r.openFrame)

theorem asks_runLine (r : Rig (Traced β)) (m : ChannelMask) :
    r.Asks (r.runLine m).2
      (r.sentPlaces m ++ fetchPlaces Address.nextOverall (r.lineFetches m)) := by
  have hsent : r.Asks (r.sendLine m) (r.sentPlaces m) :=
    foldl_run (R := fun (s s' : Rig (Traced β)) places => s.Asks s' places)
      (fun _ => .of_eq rfl) .trans m.toList fun turn _ => asks_sendInTurn turn.1 turn.2
  have hstepped : (r.sendLine m).Asks ((r.sendLine m).stepLines m).2
      (fetchPlaces Address.nextOverall (r.lineFetches m)) :=
    asks_fetches Prod.snd (fun turn => turn.1.2.stepFetches turn.2)
      (fun s i => asks_stepLine s.1 s.2 i) m.toList (m, r.sendLine m)
  have hclosed : ((r.sendLine m).stepLines m).2.Asks (r.runLine m).2 [] := by
    refine .one (c := .setWorkRamTaken r.controller.activity.workRamTaken) ?_
    rw [runLine_snd, buses_closeLine]
    rfl
  have hall := (hsent.trans hstepped).trans hclosed
  rwa [List.append_nil] at hall

/-! ### Keeping to the table -/

omit [Buses β] in
theorem length_wordPlaces (next next' : UInt8 → UInt16 → Address) (bank : UInt8)
    (word : Option UInt16) :
    (wordPlaces next bank word).length = (wordPlaces next' bank word).length := by
  cases word <;> rfl

theorem length_headerPlaces (next next' : UInt8 → UInt16 → Address) (r : Rig β) (i : ChannelId) :
    (r.headerPlaces next i).length = (r.headerPlaces next' i).length := by
  unfold headerPlaces
  simp only [List.length_cons, List.length_append, length_wordPlaces next next']

omit [Buses β] in
theorem wordPlaces_kept_iff (bank : UInt8) (word : Option UInt16) :
    wordPlaces Address.nextInBank bank word = wordPlaces Address.nextOverall bank word ↔
      word ≠ some 0xFFFF := by
  cases word with
  | none => simp [wordPlaces]
  | some w => simp [wordPlaces, Address.nextInBank_eq_iff]

/-- A header keeps to the table if its word does. -/
theorem headerPlaces_kept_iff (r : Rig β) (i : ChannelId) :
    r.headerPlaces Address.nextInBank i = r.headerPlaces Address.nextOverall i ↔
      r.pointerWord i ≠ some 0xFFFF := by
  unfold headerPlaces
  rw [List.cons.injEq, List.append_cancel_right_eq, wordPlaces_kept_iff]
  exact and_iff_right rfl

/-- So does a row of headers if all their words do. -/
theorem fetchPlaces_kept_iff (fetches : List (Rig β × ChannelId)) :
    fetchPlaces Address.nextInBank fetches = fetchPlaces Address.nextOverall fetches ↔
      ∀ fetch ∈ fetches, fetch.1.pointerWord fetch.2 ≠ some 0xFFFF := by
  induction fetches with
  | nil => simp [fetchPlaces]
  | cons fetch fetches ih =>
      unfold fetchPlaces at ih ⊢
      rw [List.flatMap_cons, List.flatMap_cons, List.forall_mem_cons, ← ih,
        ← headerPlaces_kept_iff]
      constructor
      · exact fun h => List.append_inj h (length_headerPlaces _ _ fetch.1 fetch.2)
      · rintro ⟨hfirst, hrest⟩
        rw [hfirst, hrest]

end Rig

/-! ### General transfers -/

/-- If a stretch is read by a pointer, it was given for a block of the bank. -/
def Stretch.Given (β : Type) [Buses β] (bank : UInt8) (s : Stretch) : Prop :=
  ∀ base, s.source = .block base →
    ∃ (b : β) (opened : UInt16), (Buses.blockPointer (.of bank opened) b).1 = some base

namespace Transfer

/-- So it is with the stretch that a transfer carries along, if it does. -/
def Given (β : Type) [Buses β] (t : Transfer) : Progress → Prop
  | .sending _ _ s => s.Given β t.channel.bank
  | _ => True

variable {β : Type} [Buses β] {t : Transfer} {progress : Progress}

theorem asks_openStretch (t : Transfer) (offset : UInt16) (left : Nat) (r : Rig (Traced β)) :
    r.Asks (t.openStretch offset left r).2 [.mapped (.of t.channel.bank offset)] := by
  have hasked : r.Asks (r.blockPointer (.of t.channel.bank offset)).2
      [.mapped (.of t.channel.bank offset)] := .one (c := .blockPointer _) rfl
  exact hasked.trans (Rig.asks_setWorkRamTaken (isWorkRam t.channel.bank offset) _)

theorem given_openStretch (t : Transfer) (offset : UInt16) (left : Nat) (r : Rig (Traced β)) :
    (t.openStretch offset left r).1.Given β t.channel.bank := by
  intro base hsource
  refine ⟨r.buses.inner, offset, ?_⟩
  change (match (Buses.blockPointer (.of t.channel.bank offset) r.buses.inner).1 with
    | some p => Source.block p
    | none => .mapped) = .block base at hsource
  split at hsource
  · rename_i p hp
    rw [hp, Source.block.inj hsource]
  · cases hsource

theorem given_begin (t : Transfer) (decoded : Bool) (r : Rig (Traced β)) :
    t.Given β (t.begin decoded r).1 := by
  unfold Transfer.begin
  split
  · trivial
  · unfold beginSending
    split
    · intro base hsource
      cases hsource
    · exact t.given_openStretch _ _ r

theorem given_currentStretch {s : Stretch} (h : s.Given β t.channel.bank) (r : Rig (Traced β)) :
    (t.currentStretch s r).1.Given β t.channel.bank := by
  unfold currentStretch
  split
  · exact t.given_openStretch _ blockSize r
  · exact h

theorem Given.moveByte (h : t.Given β progress) (r : Rig (Traced β)) :
    t.Given β (t.moveByte progress r).1 := by
  cases progress with
  | sending place position s => exact given_currentStretch h r
  | _ => trivial

/-- Beginning a transfer asks for the block of its first byte at most. -/
theorem asksOnly_begin (t : Transfer) (decoded : Bool) (r : Rig (Traced β)) :
    r.AsksOnly (Place.InBank β t.channel.bank) (t.begin decoded r).2 := by
  unfold Transfer.begin
  split
  · unfold beginCollecting
    dsimp only
    split
    · exact .of_eq rfl
    · exact (r.asks_setWorkRamTaken _).only (List.forall_mem_nil _)
  · unfold beginSending
    split
    · exact (r.asks_setWorkRamTaken false).only (List.forall_mem_nil _)
    · refine (t.asks_openStretch _ (t.firstStretch t.channel.address) r).only ?_
      exact List.forall_mem_singleton.mpr (.mapped _)

theorem asks_deliver (route : Route) (register : UInt16) (offset v : UInt8) (taken : Bool)
    (r : Rig (Traced β)) : r.Asks (route.deliver register offset v taken r) [] := by
  cases route with
  | videoPair remapped =>
      unfold Route.deliver
      dsimp only
      have hwritten (r : Rig (Traced β)) (high : Bool) :
          r.Asks (r.modifyBuses (Buses.writeVideo high remapped v)) [] :=
        .one (c := .writeRegister _ v r.buses.taken) rfl
      split
      · have hfloating : r.Asks (r.modifyBuses (Buses.setOpenBus v)) [] :=
          .one (c := .setOpenBus v) rfl
        exact hfloating.trans (hwritten _ _)
      · exact hwritten _ _
  | workRam =>
      cases taken with
      | true => exact .of_eq rfl
      | false => exact .one (c := .writeRegister 0x2180 v r.buses.taken) rfl
  | _ => exact .one (c := .writeRegister _ v r.buses.taken) rfl

theorem asksOnly_fetch {s : Stretch} (h : s.Given β t.channel.bank) (position : UInt16)
    (r : Rig (Traced β)) :
    r.AsksOnly (Place.InBank β t.channel.bank) (t.fetch s.source position r).2 := by
  unfold fetch
  cases hsource : s.source with
  | mapped => exact (r.asks_read _).only (List.forall_mem_singleton.mpr (.mapped position))
  | block base =>
      obtain ⟨b, opened, hbase⟩ := h base hsource
      exact (r.asks_peek _).only (List.forall_mem_singleton.mpr (.direct position hbase))
  | decoder => exact .of_eq rfl

/-- A byte is looked for in the bank of its transfer, or taken there. -/
theorem Given.asksOnly_moveByte (h : t.Given β progress) (r : Rig (Traced β)) :
    r.AsksOnly (Place.InBank β t.channel.bank) (t.moveByte progress r).2 := by
  have hin (offset : UInt16) : ∀ place ∈ [Place.mapped (.of t.channel.bank offset)],
      place.InBank β t.channel.bank := List.forall_mem_singleton.mpr (.mapped offset)
  cases progress with
  | idle => exact .of_eq rfl
  | collecting place =>
      have hcollected (r : Rig (Traced β)) (a : UInt16) (register : UInt16) :
          r.Asks ((r.readRegister register).2.write (.of t.channel.bank a)
            (r.readRegister register).1) [.mapped (.of t.channel.bank a)] :=
        (r.asks_readRegister register).trans (.one (c := .write _ _) rfl)
      simp only [Transfer.moveByte, collectByte]
      split
      · exact ((r.asks_setWorkRamTaken _).trans (hcollected _ _ _)).only (hin _)
      · exact (hcollected _ _ _).only (hin _)
  | sending place position s =>
      have hcurrent : r.AsksOnly (Place.InBank β t.channel.bank) (t.currentStretch s r).2 := by
        unfold currentStretch
        split
        · exact (t.asks_openStretch _ blockSize r).only (hin _)
        · exact .of_eq rfl
      have hfetched := asksOnly_fetch (given_currentStretch h r) position (t.currentStretch s r).2
      refine hcurrent.trans (hfetched.trans ?_)
      exact (asks_deliver _ _ _ _ _ _).only (List.forall_mem_nil _)

end Transfer

namespace Host

variable {κ β : Type} [Buses β]

theorem asksOnly_prepare (h : Host κ (Traced β)) (i : ChannelId) :
    h.rig.AsksOnly (Place.InBank β (h.rig.channel i).bank) (h.prepare i).2.2.rig ∧
      (h.prepare i).1.Given β (h.prepare i).2.1 := by
  have hready : (h.noteStart i).takeDecoderReady.2.rig.buses = h.rig.buses := by
    obtain ⟨d, hd⟩ := (h.noteStart i).takeDecoderReady_snd
    rw [hd]
    rfl
  have hlooked : h.rig.AsksOnly (Place.InBank β (h.rig.channel i).bank)
      ((h.noteStart i).takeDecoderReady.2.spend slowAccess).rig :=
    .of_eq (congrArg Traced.calls hready)
  unfold prepare
  dsimp only
  split
  · exact ⟨.of_eq rfl, trivial⟩
  · exact ⟨hlooked.trans (Transfer.asksOnly_begin _ _ _), Transfer.given_begin _ _ _⟩

variable [Schedule κ (Traced β)] {P : Place → Prop}

omit [Buses β] in
theorem asksOnly_passByte (i : ChannelId) {h : Host κ (Traced β)}
    (hevents : ∀ e ∈ settleNotes (fun e => [e]) settleLimit (h.spend slowAccess),
      e.rig.AsksOnly P (Schedule.fire e).rig) : h.rig.AsksOnly P (h.passByte i).2.rig :=
  settleWithin_run (R := fun r _ r' => r.AsksOnly P r') (fun e => [e]) (fun _ => .of_eq rfl) .trans
    settleLimit hevents

theorem asksOnly_moveBytes {t : Transfer} (n : Nat) {progress : Progress} {h : Host κ (Traced β)}
    (hgiven : t.Given β progress)
    (hevents : ∀ e ∈ (byteNotes (fun e => [e]) t n progress h).flatMap Prod.snd,
      e.rig.AsksOnly P (Schedule.fire e).rig) :
    h.rig.AsksOnly (fun place => place.InBank β t.channel.bank ∨ P place)
      (moveBytes t n progress h).2.rig := by
  induction n generalizing progress h with
  | zero => exact .of_eq rfl
  | succ n ih =>
      rw [byteNotes, List.flatMap_cons] at hevents
      have hmoved : h.rig.AsksOnly (Place.InBank β t.channel.bank) (h.byteDone t progress).rig :=
        hgiven.asksOnly_moveByte h.rig
      have hpassed := asksOnly_passByte t.id (h := h.byteDone t progress)
        fun e he => hevents e (List.mem_append_left _ he)
      have hfirst : h.rig.AsksOnly (fun place => place.InBank β t.channel.bank ∨ P place)
          ((h.byteDone t progress).passByte t.id).2.rig :=
        (hmoved.mono fun _ => .inl).trans (hpassed.mono fun _ => .inr)
      rw [moveBytes_succ]
      split
      · rename_i hgo
        rw [if_pos hgo] at hevents
        exact hfirst.trans
          (ih (hgiven.moveByte h.rig) fun e he => hevents e (List.mem_append_right _ he))
      · exact hfirst

/-- A whole transfer looks in the bank of its channel, and where its events look. -/
theorem asksOnly_runChannel {h : Host κ (Traced β)} {i : ChannelId}
    (hevents : ∀ e ∈ h.events i, e.rig.AsksOnly P (Schedule.fire e).rig) :
    h.rig.AsksOnly (fun place => place.InBank β (h.rig.channel i).bank ∨ P place)
      (h.runChannel i).2.rig := by
  obtain ⟨hprepared, hgiven⟩ := h.asksOnly_prepare i
  have hbank := h.prepare_channel i
  unfold events transferNotes at hevents
  rw [runChannel_eq]
  generalize h.prepare i = prepared at hprepared hgiven hbank hevents ⊢
  obtain ⟨t, progress, start⟩ := prepared
  have hmoved := asksOnly_moveBytes (h.rig.channel i).length hgiven hevents
  rw [hbank] at hmoved
  have hconcluded (stop : Host κ (Traced β)) (idle done : Bool) :
      stop.rig.AsksOnly (fun place => place.InBank β (h.rig.channel i).bank ∨ P place)
        (stop.conclude idle done).rig := by
    refine Rig.Asks.only (.one (c := .setWorkRamTaken false) ?_) (List.forall_mem_nil _)
    rw [buses_conclude]
    rfl
  exact ((hprepared.mono fun _ => .inl).trans hmoved).trans (hconcluded _ _ _)

end Host

/-! ### Everything together -/

/-- A general transfer looks in the bank of its channel, and where its events look.  In their turns
of sending, channels look in the bank of their data, at one byte after the other.  Headers are
fetched from the table, which goes on behind what was fetched.  They, and with them frames and
lines, keep to the table, round the end of its bank, if and only if no word that is fetched with
them lies over that end. -/
theorem banks_kept_iff {κ β : Type} [Buses β] [Schedule κ (Traced β)] (h : Host κ (Traced β)) :
    (∀ i (P : Place → Prop), (∀ e ∈ h.events i, e.rig.AsksOnly P (Schedule.fire e).rig) →
        h.rig.AsksOnly (fun place => place.InBank β (h.rig.channel i).bank ∨ P place)
          (h.runChannel i).2.rig) ∧
      (∀ (r : Rig (Traced β)) i a, .mapped a ∈ r.sendPlaces i →
        a.bank = (r.channel i).lineBank) ∧
      (∀ i, ((h.rig.fetchHeader i).2.channel i).table =
          (h.rig.pointerWord i).elim ((h.rig.channel i).table + 1) (· + 2) ∧
        (h.rig.Asks (h.rig.fetchHeader i).2 (h.rig.headerPlaces Address.nextInBank i) ↔
          h.rig.pointerWord i ≠ some 0xFFFF)) ∧
      (h.rig.Asks h.rig.beginFrame
          (Rig.fetchPlaces Address.nextInBank h.rig.frameFetches) ↔
        ∀ fetch ∈ h.rig.frameFetches, fetch.1.pointerWord fetch.2 ≠ some 0xFFFF) ∧
      ∀ m, h.rig.Asks (h.rig.runLine m).2
          (h.rig.sentPlaces m ++ Rig.fetchPlaces Address.nextInBank (h.rig.lineFetches m)) ↔
        ∀ fetch ∈ h.rig.lineFetches m, fetch.1.pointerWord fetch.2 ≠ some 0xFFFF := by
  refine ⟨fun i P hevents => h.asksOnly_runChannel hevents,
    fun r i a ha => Rig.bank_of_mem_sendPlaces ha,
    fun i => ⟨h.rig.table_fetchHeader i, ?_⟩, ?_, fun m => ?_⟩
  · rw [(h.rig.asks_fetchHeader i).iff_eq, Rig.headerPlaces_kept_iff]
  · rw [h.rig.asks_beginFrame.iff_eq, Rig.fetchPlaces_kept_iff]
  · rw [(h.rig.asks_runLine m).iff_eq, List.append_cancel_left_eq, Rig.fetchPlaces_kept_iff]

/-! ### A table at the end of a bank -/

section

attribute [local instance] Recorder.plain

/-- The first header of channel 0 is the last byte but one of bank `$7E`, with a word behind it, and
a general transfer of the channel moves the last byte of the bank and the first one. -/
def tableAtBankEnd : Host Beam (Traced Recorder) where
  rig :=
    let atBankEnd : Channel := { Channel.powerOn with
      control := .ofByte 0x40, bank := 0x7E, address := 0xFFFF, count := 2, table := 0xFFFE,
      indirectBank := 0x7F }
    let filled := ((Memory.zero.load 0x7EFFFE [0x01, 0x34]).set 0x7E0000 0x12).set 0x7F0000 0x56
    { controller := (Controller.powerOn .standard).setChannel (channelNumber 0) atBankEnd
      buses := ⟨{ Recorder.blank false with memory := filled }, false, []⟩
      cycles := 0 }
  schedule := Beam.powerOn.await .endLine Beam.cyclesPerLine

/-- The transfer keeps to the bank, and the fetch of the header does not. -/
theorem tableAtBankEnd_keeps_in_part :
    let h := tableAtBankEnd
    h.rig.AsksOnly (Place.InBank Recorder 0x7E) (h.runChannel 0).2.rig ∧
      h.rig.pointerWord 0 = some 0xFFFF ∧
      ¬ h.rig.Asks (h.rig.fetchHeader 0).2 (h.rig.headerPlaces Address.nextInBank 0) := by
  intro h
  have hevents : h.events 0 = [] := List.isEmpty_iff.mp (by decide +kernel)
  have hword : h.rig.pointerWord 0 = some 0xFFFF := by decide +kernel
  obtain ⟨htransfer, -, hheader, -, -⟩ := banks_kept_iff h
  have hmoved := htransfer 0 (fun _ => False) fun e he => by
    rw [hevents] at he
    cases he
  refine ⟨hmoved.mono fun place hplace => hplace.resolve_right id, hword, ?_⟩
  exact fun hasks => (hheader 0).2.mp hasks hword

/-- The high byte of the word is fetched from the bank behind. -/
theorem tableAtBankEnd_leaves_bank :
    let fetched := tableAtBankEnd.rig.fetchHeader 0
    tableAtBankEnd.rig.headerPlaces Address.nextInBank 0 =
        [.mapped 0x7EFFFE, .mapped 0x7EFFFF, .mapped 0x7E0000, .mapped 0x7F5634] ∧
      fetched.2.buses.calls.filterMap BusCall.place? =
        [.mapped 0x7EFFFE, .mapped 0x7EFFFF, .mapped 0x7F0000, .mapped 0x7F5634] ∧
      (fetched.2.channel 0).count = 0x5634 := by
  decide +kernel

end

end DmaController
