import DmaController.Proofs.LineTransfer.Cache
import DmaController.Proofs.LineTransfer.Table

/-! # What a unit writes

A channel that sends a unit writes its bytes to its registers in order, whichever of the three
ways they come: byte by byte through the memory map, through the map inside a block, or through a
pointer (`sendUnit_sends`).  Around the unit nothing is written (`sendInTurn_sends`), and nothing
at all if none is pending.

The memory stays as it is meanwhile, as long as the unit goes to registers that are cleared, or in
reverse to places that are (`Channel.Spares`). -/

namespace DmaController

namespace Channel

/-- The register writes by which a unit arrives. -/
def unitWrites (c : Channel) (unit : List UInt8) : List (UInt16 × UInt8) :=
  (c.mode.offsets.map c.register).zip unit

/-- The registers of a unit are cleared. -/
def RegistersClear (clear : Clearance) (c : Channel) : Prop :=
  ∀ o ∈ c.mode.offsets, clear.register (c.register o)

/-- The places that a unit comes from, or goes to in reverse, are cleared. -/
def PlacesClear (clear : Clearance) (c : Channel) : Prop :=
  ∀ k < c.mode.size, clear.place (.of c.lineBank (c.lineOffset + UInt16.ofNat k))

/-- The unit that the channel has pending, if any, goes to where it gets in nobody's way. -/
def Spares (clear : Clearance) (c : Channel) : Prop :=
  c.pending = true →
    if c.control.reverse then c.PlacesClear clear else c.RegistersClear clear

instance (clear : Clearance) [DecidablePred clear.register] (c : Channel) :
    Decidable (c.RegistersClear clear) :=
  inferInstanceAs (Decidable (∀ o ∈ c.mode.offsets, clear.register (c.register o)))

instance (clear : Clearance) [DecidablePred clear.place] (c : Channel) :
    Decidable (c.PlacesClear clear) :=
  inferInstanceAs (Decidable (∀ k < c.mode.size, _))

instance (clear : Clearance) [DecidablePred clear.register] [DecidablePred clear.place]
    (c : Channel) : Decidable (c.Spares clear) :=
  inferInstanceAs (Decidable (c.pending = true → if c.control.reverse then _ else _))

theorem Spares.registers {clear : Clearance} {c : Channel} (h : c.Spares clear)
    (hp : c.pending = true) (hr : c.control.reverse = false) : c.RegistersClear clear := by
  have := h hp
  rwa [hr, if_neg Bool.false_ne_true] at this

theorem Spares.places {clear : Clearance} {c : Channel} (h : c.Spares clear)
    (hp : c.pending = true) (hr : c.control.reverse = true) : c.PlacesClear clear := by
  have := h hp
  rwa [if_pos hr] at this

end Channel

/-- Inside a block, the address of a byte is found by counting on from that of the first. -/
theorem Address.of_add_ofNat {bank : UInt8} {o : UInt16} {k : Nat}
    (h : positionInBlock o + k < blockSize) :
    Address.of bank o + UInt32.ofNat k = .of bank (o + UInt16.ofNat k) := by
  have hb := bank.toNat_lt
  have ho := o.toNat_lt
  apply UInt32.toNat_inj.mp
  simp only [positionInBlock, blockSize] at h
  rw [UInt32.toNat_add, toNat_of, toNat_of, UInt16.toNat_add, UInt16.toNat_ofNat',
    UInt32.toNat_ofNat']
  omega

variable {β : Type} [Buses β] {M : Address → Option UInt8} {clear : Clearance} {good : β → Prop}

/-- The pointers in front of a steady memory show the bytes they are for. -/
theorem SteadyBytes.reaching (hs : SteadyBytes M clear good) :
    Reaching (fun t : Traced β => good t.inner) (Shows M good) where
  opened hg hp := hs.peek_byte hg hp
  moved := by
    intro bank o p n hn hshows b k v hg hk hv
    rw [positionInBlock_add hn, Nat.add_assoc] at hk
    rw [UInt16.add_assoc, ← UInt16.ofNat_add] at hv
    rw [Pointer.offset_offset, ← UInt64.ofNat_add]
    exact hshows hg hk hv
  good_read a hg := hs.good_read a hg
  good_readWord _ hg := hs.good_read _ (hs.good_read _ hg)

namespace Rig

/-- Register writes have gone out from `r` to `r'`, and the memory is as it was. -/
structure Sends (good : β → Prop) (r r' : Rig (Traced β)) (ws : List (UInt16 × UInt8)) : Prop where
  calls : Traced.Calls BusCall.written? r.buses r'.buses ws
  good : good r.buses.inner → good r'.buses.inner

namespace Sends

variable {r r' r'' : Rig (Traced β)} {ws ws' : List (UInt16 × UInt8)}

omit [Buses β] in
theorem refl (r : Rig (Traced β)) : r.Sends good r [] := ⟨.of_eq rfl, id⟩

omit [Buses β] in
theorem trans (h : r.Sends good r' ws) (h' : r'.Sends good r'' ws') :
    r.Sends good r'' (ws ++ ws') :=
  ⟨h.calls.trans h'.calls, fun hg => h'.good (h.good hg)⟩

omit [Buses β] in
theorem setCache (h : r.Sends good r' ws) (i : ChannelId) (p : Option Pointer) :
    r.Sends good (r'.setCache i p) ws := ⟨h.calls, h.good⟩

end Sends

section

variable (hs : SteadyBytes M clear good)

include hs

theorem sends_setWorkRamTaken (taken : Bool) (r : Rig (Traced β)) :
    r.Sends good (r.setWorkRamTaken taken) [] :=
  ⟨Traced.Calls.one (c := .setWorkRamTaken taken) rfl, hs.good_setWorkRamTaken taken⟩

theorem sends_read (a : Address) (r : Rig (Traced β)) : r.Sends good (r.read a).2 [] :=
  ⟨Traced.Calls.one (c := .read a _) rfl, hs.good_read a⟩

theorem sends_peek (p : Pointer) (r : Rig (Traced β)) : r.Sends good (r.peek p).2 [] :=
  ⟨Traced.Calls.one (c := .peek p _) rfl, hs.good_peek p⟩

theorem sends_bytePointer (a : Address) (r : Rig (Traced β)) :
    r.Sends good (r.bytePointer a).2 [] :=
  ⟨Traced.Calls.one (c := .bytePointer a) rfl, hs.good_bytePointer a⟩

theorem sends_setOpenBus (v : UInt8) (r : Rig (Traced β)) :
    r.Sends good (r.modifyBuses (Buses.setOpenBus v)) [] :=
  ⟨Traced.Calls.one (c := .setOpenBus v) rfl, hs.good_setOpenBus v⟩

theorem sends_writeRegister {a : UInt16} (ha : clear.register a) (v : UInt8)
    (r : Rig (Traced β)) : r.Sends good ((r.writeRegister a v).spend slowAccess) [(a, v)] :=
  ⟨Traced.Calls.one (c := .writeRegister a v r.buses.taken) rfl, hs.good_writeRegister v ha⟩

/-- A byte that was fetched as it should be is written. -/
theorem Sends.write {r r' : Rig (Traced β)} {w v : UInt8} (h : r.Sends good r' []) (hv : w = v)
    {a : UInt16} (ha : clear.register a) :
    r.Sends good ((r'.writeRegister a w).spend slowAccess) [(a, v)] := by
  subst hv
  exact h.trans (sends_writeRegister hs ha w r')

theorem sends_pointSprites (c : Channel) (r : Rig (Traced β)) :
    r.Sends good (r.pointSprites c) [] := by
  unfold pointSprites
  split
  · exact ⟨Traced.Calls.one (c := .setSpriteAddress 0x10C) rfl, hs.good_setSpriteAddress 0x10C⟩
  · exact .refl r

theorem sends_refreshCache (r : Rig (Traced β)) (i : ChannelId) :
    r.Sends good (r.refreshCache i) [] := by
  cases h : (r.channel i).cache with
  | some p =>
      rw [refreshCache_of_some h]
      exact .refl r
  | none =>
      rw [refreshCache_of_none h]
      exact (sends_bytePointer hs _ r).trans ⟨.of_eq rfl, id⟩

end

/-! ### The bytes of a unit -/

omit [Buses β] in
theorem foldl_sends {c : Channel} {step : Nat → UInt8 → Rig (Traced β) → Rig (Traced β)}
    (offsets : List UInt8) :
    ∀ (unit : List UInt8) (n : Nat) (r : Rig (Traced β)), unit.length = offsets.length →
      (∀ k o v (s : Rig (Traced β)), o ∈ offsets → unit[k]? = some v → good s.buses.inner →
        s.Sends good (step (n + k) o s) [(c.register o, v)]) →
      good r.buses.inner →
      r.Sends good ((offsets.zipIdx n).foldl (fun r p => step p.2 p.1 r) r)
        ((offsets.map c.register).zip unit) := by
  induction offsets with
  | nil =>
      intro unit n r _ _ _
      exact .refl r
  | cons o offsets ih =>
      intro unit n r hlen hstep hg
      cases unit with
      | nil => cases hlen
      | cons v unit =>
          have hfirst := hstep 0 o v r List.mem_cons_self rfl hg
          have hrest := ih unit (n + 1) (step n o r) (Nat.succ.inj hlen)
            (fun k o' w s ho hw hs => by
              have := hstep (k + 1) o' w s (List.mem_cons_of_mem o ho) hw hs
              rwa [Nat.add_comm k 1, ← Nat.add_assoc] at this)
            (hfirst.good hg)
          rw [List.zipIdx_cons, List.foldl_cons, List.map_cons, List.zip_cons_cons]
          exact hfirst.trans hrest

omit [Buses β] in
/-- A unit whose step sends byte `k` of `unit` from any good state sends all of `unit`. -/
theorem forUnit_sends {c : Channel} {unit : List UInt8} (hlen : unit.length = c.mode.size)
    {step : Nat → UInt8 → Rig (Traced β) → Rig (Traced β)}
    (hstep : ∀ k o v (s : Rig (Traced β)), o ∈ c.mode.offsets → unit[k]? = some v →
      good s.buses.inner → s.Sends good (step k o s) [(c.register o, v)])
    {r : Rig (Traced β)} (hg : good r.buses.inner) :
    r.Sends good (r.forUnit c.mode step) (c.unitWrites unit) := by
  refine foldl_sends c.mode.offsets unit 0 r hlen ?_ hg
  intro k o v s ho hv hg
  rw [Nat.zero_add]
  exact hstep k o v s ho hv hg

section

variable (hs : SteadyBytes M clear good) {c : Channel} {unit : List UInt8}
  (hlen : unit.length = c.mode.size) (hheld : Holds M c.lineBank c.lineOffset unit)
  (hclear : c.RegistersClear clear) {r : Rig (Traced β)} (hg : good r.buses.inner)

include hs hlen hheld hclear hg

theorem sendStraddling_sends : r.Sends good (r.sendStraddling c) (c.unitWrites unit) := by
  refine forUnit_sends hlen ?_ hg
  intro k o v s ho hv hg
  have htaken := sends_setWorkRamTaken hs (isWorkRam c.lineBank (c.lineOffset + UInt16.ofNat k)) s
  have hread := sends_read hs (.of c.lineBank (c.lineOffset + UInt16.ofNat k))
    (s.setWorkRamTaken (isWorkRam c.lineBank (c.lineOffset + UInt16.ofNat k)))
  exact (htaken.trans hread).write hs (hs.read (htaken.good hg) (hheld k v hv)) (hclear o ho)

variable (hinside : positionInBlock c.lineOffset + c.mode.size < blockSize)

include hinside

theorem sendMapped_sends : r.Sends good (r.sendMapped c) (c.unitWrites unit) := by
  refine forUnit_sends hlen ?_ hg
  intro k o v s ho hv hg
  have hk : k < unit.length := (List.getElem?_eq_some_iff.mp hv).1
  have ha : Address.of c.lineBank c.lineOffset + UInt32.ofNat k =
      .of c.lineBank (c.lineOffset + UInt16.ofNat k) :=
    Address.of_add_ofNat (by omega)
  have hread := sends_read hs (Address.of c.lineBank c.lineOffset + UInt32.ofNat k) s
  have hv' := hheld k v hv
  rw [← ha] at hv'
  exact hread.write hs (hs.read hg hv') (hclear o ho)

theorem sendDirect_sends {p : Pointer} (hp : Shows M good p c.lineBank c.lineOffset) :
    r.Sends good (r.sendDirect c p) (c.unitWrites unit) := by
  refine forUnit_sends hlen ?_ hg
  intro k o v s ho hv hg
  have hk : k < unit.length := (List.getElem?_eq_some_iff.mp hv).1
  have hpeek := sends_peek hs (p.offset (UInt64.ofNat k)) s
  have hbyte := hp hg (by omega) (hheld k v hv)
  dsimp only
  split
  · exact (hpeek.trans (sends_setOpenBus hs _ _)).write hs hbyte (hclear o ho)
  · exact hpeek.write hs hbyte (hclear o ho)

end

/-! ### A turn -/

section

variable (hs : SteadyBytes M clear good)

include hs

/-- A channel that sends writes the unit it has pending, and nothing else. -/
theorem sendUnit_sends {r : Rig (Traced β)} {i : ChannelId} {unit : List UInt8}
    (hg : good r.buses.inner) (hforward : (r.channel i).control.reverse = false)
    (hspares : (r.channel i).Spares clear) (hcached : (r.channel i).Cached (Shows M good))
    (hunit : (r.channel i).pending = true → unit.length = (r.channel i).mode.size ∧
      Holds M (r.channel i).lineBank (r.channel i).lineOffset unit) :
    r.Sends good (r.sendUnit i)
      (if (r.channel i).pending then (r.channel i).unitWrites unit else []) := by
  have hrefresh := sends_refreshCache hs r i
  have hcached' := cached_refreshCache hs.reaching hg hcached
  obtain ⟨p, hp⟩ := (r.recached_refreshCache i).own
  rw [sendUnit_eq]
  generalize hc : r.channel i = c at *
  generalize r.refreshCache i = s at *
  -- But for its direct access, the channel is still what it was.
  have hunits : (s.channel i).unitWrites unit = c.unitWrites unit := by rw [hp]; rfl
  have hlen : c.pending = true → unit.length = (s.channel i).mode.size := by
    rw [hp]
    exact fun h => (hunit h).1
  have hheld : c.pending = true → Holds M (s.channel i).lineBank (s.channel i).lineOffset unit := by
    rw [hp]
    exact fun h => (hunit h).2
  have hpending : (s.channel i).pending = c.pending := by rw [hp]
  have hreverse : (s.channel i).control.reverse = false := by rw [hp]; exact hforward
  have hclear : c.pending = true → (s.channel i).RegistersClear clear := by
    rw [hp]
    exact fun h => hspares.registers h hforward
  dsimp only
  rw [hpending, hreverse, ← hunits]
  generalize s.channel i = d at *
  cases hpend : c.pending with
  | false =>
      rw [Bool.not_false, if_pos rfl, if_neg Bool.false_ne_true]
      exact hrefresh
  | true =>
      rw [Bool.not_true, if_neg Bool.false_ne_true, if_neg Bool.false_ne_true, if_pos rfl]
      have hsprites := hrefresh.trans (sends_pointSprites hs d s)
      by_cases hb : d.unitReachesBlockEnd = true
      · rw [if_pos hb]
        have hnone := hsprites.setCache i none
        exact hnone.trans (sendStraddling_sends hs (hlen hpend) (hheld hpend) (hclear hpend)
          (hnone.good hg))
      rw [if_neg hb]
      have hinside : positionInBlock d.lineOffset + d.mode.size < blockSize := by
        simpa [Channel.unitReachesBlockEnd] using hb
      have htaken := hsprites.trans
        (sends_setWorkRamTaken hs (isWorkRam d.lineBank d.lineOffset) (s.pointSprites d))
      cases hcache : d.cache with
      | none =>
          exact htaken.trans
            (sendMapped_sends hs (hlen hpend) (hheld hpend) (hclear hpend) (htaken.good hg) hinside)
      | some q =>
          have hsent := htaken.trans
            (sendDirect_sends hs (hlen hpend) (hheld hpend) (hclear hpend) (htaken.good hg)
              hinside (hcached' q hcache))
          exact hsent.setCache i (some (q.offset (UInt64.ofNat d.mode.size)))

omit [Buses β] hs in
theorem good_forUnit {mode : UnitMode} {step : Nat → UInt8 → Rig (Traced β) → Rig (Traced β)}
    {r : Rig (Traced β)} (hg : good r.buses.inner)
    (hstep : ∀ k o (s : Rig (Traced β)), k < mode.size → o ∈ mode.offsets →
      good s.buses.inner → good (step k o s).buses.inner) :
    good (r.forUnit mode step).buses.inner :=
  forUnit_induction (P := fun s : Rig (Traced β) => good s.buses.inner) mode step r hg
    fun k o s hp => hstep k o s (lt_size_of_mem_zipIdx hp) (List.fst_mem_of_mem_zipIdx hp)

/-- Whatever channel has its turn, the memory stays as it is. -/
theorem good_sendUnit {r : Rig (Traced β)} {i : ChannelId} (hg : good r.buses.inner)
    (hspares : (r.channel i).Spares clear) : good (r.sendUnit i).buses.inner := by
  have hrefresh := (sends_refreshCache hs r i).good hg
  obtain ⟨p, hp⟩ := (r.recached_refreshCache i).own
  have hspares' : ((r.refreshCache i).channel i).Spares clear := by
    rw [hp]
    exact hspares
  rw [sendUnit_eq]
  generalize r.refreshCache i = s at *
  generalize s.channel i = c at *
  have hsprites := (sends_pointSprites hs c s).good hrefresh
  dsimp only
  cases hpend : c.pending with
  | false =>
      rw [Bool.not_false, if_pos rfl]
      exact hrefresh
  | true =>
      rw [Bool.not_true, if_neg Bool.false_ne_true]
      by_cases hr : c.control.reverse = true
      · rw [if_pos hr]
        refine good_forUnit (r := (s.pointSprites c).setCache i none) hsprites ?_
        intro k o s hk _ hg
        exact hs.good_write _ (hspares'.places hpend hr k hk)
          (hs.good_readRegister _ (hs.good_setWorkRamTaken _ hg))
      rw [if_neg hr]
      have hclear := hspares'.registers hpend (Bool.eq_false_iff.mpr hr)
      by_cases hb : c.unitReachesBlockEnd = true
      · rw [if_pos hb]
        refine good_forUnit (r := (s.pointSprites c).setCache i none) hsprites ?_
        intro k o s _ ho hg
        exact hs.good_writeRegister _ (hclear o ho) (hs.good_read _ (hs.good_setWorkRamTaken _ hg))
      rw [if_neg hb]
      have htaken := hs.good_setWorkRamTaken (isWorkRam c.lineBank c.lineOffset) hsprites
      cases c.cache with
      | none =>
          refine good_forUnit
            (r := (s.pointSprites c).setWorkRamTaken (isWorkRam c.lineBank c.lineOffset)) htaken ?_
          intro k o s _ ho hg
          exact hs.good_writeRegister _ (hclear o ho) (hs.good_read _ hg)
      | some q =>
          refine good_forUnit
            (r := (s.pointSprites c).setWorkRamTaken (isWorkRam c.lineBank c.lineOffset)) htaken ?_
          intro k o s _ ho hg
          dsimp only
          split
          · exact hs.good_writeRegister _ (hclear o ho) (hs.good_setOpenBus _ (hs.good_peek _ hg))
          · exact hs.good_writeRegister _ (hclear o ho) (hs.good_peek _ hg)

theorem sendInTurn_sends {r : Rig (Traced β)} {i : ChannelId} {u : List UInt8}
    (hg : good r.buses.inner) (hforward : (r.channel i).control.reverse = false)
    (hspares : (r.channel i).Spares clear) (hcached : (r.channel i).Cached (Shows M good))
    (hunit : (r.channel i).pending = true → u.length = (r.channel i).mode.size ∧
      Holds M (r.channel i).lineBank (r.channel i).lineOffset u) :
    r.Sends good (r.sendInTurn i)
      (if (r.channel i).pending then (r.channel i).unitWrites u else []) := by
  have htaken := sends_setWorkRamTaken hs false r
  have hnamed : r.Sends good ((r.setWorkRamTaken false).setCurrent i) [] :=
    ⟨htaken.calls, htaken.good⟩
  exact hnamed.trans (sendUnit_sends hs (hnamed.good hg) hforward hspares hcached hunit)

theorem good_sendInTurn {r : Rig (Traced β)} {i : ChannelId} (hg : good r.buses.inner)
    (hspares : (r.channel i).Spares clear) : good (r.sendInTurn i).buses.inner :=
  good_sendUnit hs (r := (r.setWorkRamTaken false).setCurrent i)
    (hs.good_setWorkRamTaken false hg) hspares

end

end Rig

end DmaController
