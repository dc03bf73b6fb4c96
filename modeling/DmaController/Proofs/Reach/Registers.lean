import DmaController.Proofs.LineTransfer.Split
import DmaController.Proofs.Transfer.Collect
import DmaController.Proofs.Transfer.Undisturbed

/-! # Which registers a controller reaches

The registers of the B-bus are `$2100` to `$21FF` (`isRegister`).  A channel counts its registers
from its first one, and does not go round at the end of the row: with its first register near the
end, a unit reaches beyond it.

A line reaches the registers of its pending units in order (`touches_runLine`); headers and frames
reach none.  The bytes of a general transfer reach the registers of the unit in turns
(`registers_byteAccesses`), the only byte that reaches none being one that the work RAM port cannot
take.  All registers are of the row if and only if, for each byte that is moved, the place of its
register still is (`registers_in_row_iff`). -/

namespace DmaController

/-- Whether an address is that of a register of the B-bus. -/
def isRegister (a : UInt16) : Bool := decide (0x2100 ≤ a) && decide (a ≤ 0x21FF)

theorem Channel.isRegister_register (c : Channel) (o : UInt8) :
    isRegister (c.register o) = true ↔ c.port.toNat + o.toNat ≤ 0xFF := by
  have hregister := c.toNat_register o
  rw [isRegister, Bool.and_eq_true, decide_eq_true_eq, decide_eq_true_eq, UInt16.le_iff_toNat_le,
    UInt16.le_iff_toNat_le, hregister]
  simp only [UInt16.reduceToNat]
  omega

/-! ### Lines -/

/-- The registers that the pending unit of a channel reaches. -/
def Channel.unitRegisters (c : Channel) : List UInt16 :=
  if c.pending then c.mode.offsets.map c.register else []

theorem Channel.unitRegisters_withCache (c : Channel) (p : Option Pointer) :
    ({ c with cache := p } : Channel).unitRegisters = c.unitRegisters := rfl

namespace Rig

variable {β : Type}

/-- A unit reaches the register of each of its bytes, if each byte does. -/
theorem touches_forUnit {c : Channel} {step : Nat → UInt8 → Rig (Logged β) → Rig (Logged β)}
    (hstep : ∀ k o (s : Rig (Logged β)),
      Logged.Touches s.buses (step k o s).buses [c.register o]) (r : Rig (Logged β)) :
    Logged.Touches r.buses (r.forUnit c.mode step).buses (c.mode.offsets.map c.register) := by
  rw [← List.zipIdx_map_fst 0 c.mode.offsets, List.map_map, List.map_eq_flatMap]
  exact forUnit_run
    (R := fun (s s' : Rig (Logged β)) as => Logged.Touches s.buses s'.buses as)
    (fun _ => .of_eq rfl) .trans (fun k o s _ => hstep k o s) r

variable [Buses β]

theorem touches_setWorkRamTaken (taken : Bool) (r : Rig (Logged β)) :
    Logged.Touches r.buses (r.setWorkRamTaken taken).buses [] :=
  .one (c := .setWorkRamTaken taken) rfl

theorem touches_readRegister (a : UInt16) (r : Rig (Logged β)) :
    Logged.Touches r.buses (r.readRegister a).2.buses [a] :=
  .one (c := .readRegister a _ r.buses.taken) rfl

theorem touches_collectUnit (c : Channel) (r : Rig (Logged β)) :
    Logged.Touches r.buses (r.collectUnit c).buses (c.mode.offsets.map c.register) := by
  refine touches_forUnit (fun k o s => ?_) r
  have hsaid := s.touches_setWorkRamTaken
    (isWorkRam c.lineBank (c.lineOffset + UInt16.ofNat k))
  exact (hsaid.trans (touches_readRegister (c.register o) _)).trans (.one (c := .write _ _) rfl)

theorem touches_sendStraddling (c : Channel) (r : Rig (Logged β)) :
    Logged.Touches r.buses (r.sendStraddling c).buses (c.mode.offsets.map c.register) := by
  refine touches_forUnit (fun k o s => ?_) r
  have hsaid := s.touches_setWorkRamTaken
    (isWorkRam c.lineBank (c.lineOffset + UInt16.ofNat k))
  exact hsaid.trans (.one (c := .writeRegister (c.register o) _ _) rfl)

theorem touches_sendMapped (c : Channel) (r : Rig (Logged β)) :
    Logged.Touches r.buses (r.sendMapped c).buses (c.mode.offsets.map c.register) :=
  touches_forUnit (fun _ o _ => .one (c := .writeRegister (c.register o) _ _) rfl) r

theorem touches_sendDirect (c : Channel) (p : Pointer) (r : Rig (Logged β)) :
    Logged.Touches r.buses (r.sendDirect c p).buses (c.mode.offsets.map c.register) := by
  refine touches_forUnit (fun k o s => ?_) r
  dsimp only
  split <;> exact .one (c := .writeRegister (c.register o) _ _) rfl

theorem touches_refreshCache (r : Rig (Logged β)) (i : ChannelId) :
    Logged.Touches r.buses (r.refreshCache i).buses [] := by
  cases h : (r.channel i).cache with
  | none =>
      rw [refreshCache_of_none h]
      exact .of_eq rfl
  | some p =>
      rw [refreshCache_of_some h]
      exact .of_eq rfl

theorem touches_pointSprites (c : Channel) (r : Rig (Logged β)) :
    Logged.Touches r.buses (r.pointSprites c).buses [] := by
  unfold pointSprites
  split
  · exact .one (c := .setSpriteAddress 0x10C) rfl
  · exact .of_eq rfl

/-- Whichever way a pending unit takes, it reaches its registers. -/
theorem touches_sendUnit (r : Rig (Logged β)) (i : ChannelId) :
    Logged.Touches r.buses (r.sendUnit i).buses (r.channel i).unitRegisters := by
  obtain ⟨p, hown⟩ := (r.recached_refreshCache i).own
  have hrefreshed := r.touches_refreshCache i
  rw [← Channel.unitRegisters_withCache _ p, ← hown, sendUnit_eq]
  generalize r.refreshCache i = s at hrefreshed
  generalize s.channel i = c
  have hpointed := hrefreshed.trans (s.touches_pointSprites c)
  dsimp only
  generalize s.pointSprites c = pointed at hpointed ⊢
  unfold Channel.unitRegisters
  cases c.pending with
  | false => exact hrefreshed
  | true =>
      rw [Bool.not_true, if_neg Bool.false_ne_true, if_pos rfl]
      split
      · exact hpointed.trans (touches_collectUnit c (pointed.setCache i none))
      split
      · exact hpointed.trans (touches_sendStraddling c (pointed.setCache i none))
      have hsaid := hpointed.trans
        (pointed.touches_setWorkRamTaken (isWorkRam c.lineBank c.lineOffset))
      cases c.cache with
      | none => exact hsaid.trans (touches_sendMapped c _)
      | some p => exact hsaid.trans (touches_sendDirect c p _)

theorem touches_sendInTurn (r : Rig (Logged β)) (i : ChannelId) :
    Logged.Touches r.buses (r.sendInTurn i).buses (r.channel i).unitRegisters :=
  (r.touches_setWorkRamTaken false).trans
    (touches_sendUnit ((r.setWorkRamTaken false).setCurrent i) i)

/-- A line reaches the registers of its pending units, one channel after the other. -/
theorem touches_runLine (r : Rig (Logged β)) (m : ChannelMask) :
    Logged.Touches r.buses (r.runLine m).2.buses
      (m.toList.flatMap fun i => (r.channel i).unitRegisters) := by
  have hsent : Logged.Touches r.buses (r.sendLine m).buses
      (m.toList.flatMap fun i => (r.channel i).unitRegisters) := by
    rw [← r.turns_flatMap m Channel.unitRegisters]
    exact foldl_run
      (R := fun (s s' : Rig (Logged β)) as => Logged.Touches s.buses s'.buses as)
      (fun _ => .of_eq rfl) .trans m.toList fun turn _ => touches_sendInTurn turn.1 turn.2
  have hstepped : ((r.sendLine m).stepLines m).2.buses.calls = (r.sendLine m).buses.calls :=
    foldl_induction (P := fun s : ChannelMask × Rig (Logged β) =>
      s.2.buses.calls = (r.sendLine m).buses.calls) _
      (fun s i _ h => (calls_stepLine s.1 s.2 i).trans h) rfl
  have hclosed := (hsent.trans (.of_eq hstepped)).trans
    (touches_setWorkRamTaken r.controller.activity.workRamTaken _)
  rw [runLine_snd, buses_closeLine]
  rwa [List.append_nil, List.append_nil] at hclosed

/-- A frame reaches no register. -/
theorem touches_beginFrame (r : Rig (Logged β)) :
    Logged.Touches r.buses r.beginFrame.buses [] := by
  have hprepared : ∀ (s : Rig (Logged β)) (i : ChannelId),
      (s.prepareChannel i).buses.calls = s.buses.calls := by
    intro s i
    have hfetched := calls_fetchHeader (s.rewound i) i
    by_cases hi : i ∈ s.controller.active
    · rw [prepareChannel_of_mem hi]
      dsimp only
      split <;> exact hfetched
    · rw [prepareChannel_of_notMem hi]
      rfl
  rw [beginFrame_eq]
  refine .of_eq (foldl_induction (P := fun s : Rig (Logged β) => s.buses.calls = r.buses.calls)
    (List.finRange 8) (fun s i _ h => (hprepared s i).trans h) ?_)
  rw [buses_openFrame]

end Rig

/-! ### The bytes of a general transfer -/

/-- A byte reaches the register it is meant for, unless that is the work RAM port and work RAM is in
use. -/
theorem Stretch.Routed.registers_taken {c : Channel} {s : Stretch} (h : s.Routed c) (k : Nat)
    (taken : Bool) :
    let register := c.register (c.mode.offsets.getD k 0)
    s.route.registers register (c.mode.offsets.getD k 0) taken = [register] ∨
      s.route.registers register (c.mode.offsets.getD k 0) taken = [] ∧ register = 0x2180 := by
  intro register
  have hfree : s.route.registers register (c.mode.offsets.getD k 0) false = [register] :=
    h.registers k
  generalize s.route = route at hfree ⊢
  cases route with
  | workRam =>
      cases taken with
      | false => exact .inl hfree
      | true => exact .inr ⟨rfl, (List.singleton_inj.mp hfree).symm⟩
  | _ => exact .inl hfree

/-- What byte `k` reaches: the register that is its turn, or none where that is the work RAM
port. -/
def Channel.Reaches (c : Channel) (k : Nat) (registers : List UInt16) : Prop :=
  registers = [c.targetRegister k] ∨ registers = [] ∧ c.targetRegister k = 0x2180

namespace Transfer

/-- Where a transfer that moves something stands in its unit after `k` bytes. -/
def Walks (t : Transfer) (k : Nat) : Progress → Prop
  | .idle => False
  | .collecting place => place = ⟨t.channel.mode, k % t.channel.mode.size⟩
  | .sending place _ s => place = ⟨t.channel.mode, k % t.channel.mode.size⟩ ∧ s.Routed t.channel

variable {β : Type} [Buses β] {t : Transfer} {k : Nat} {progress : Progress}

theorem walks_begin (t : Transfer) (decoded : Bool) (r : Rig β) :
    t.Walks 0 (t.begin decoded r).1 := by
  have hfirst : UnitCursor.start t.channel.mode = ⟨t.channel.mode, 0 % t.channel.mode.size⟩ := by
    rw [Nat.zero_mod]
    rfl
  unfold Transfer.begin
  split
  · exact hfirst
  · unfold beginSending
    split
    · exact ⟨hfirst, .inr ⟨_, rfl⟩⟩
    · exact ⟨hfirst, t.routed_openStretch _ _ r⟩

theorem routed_currentStretch {s : Stretch} (h : s.Routed t.channel) (r : Rig β) :
    (t.currentStretch s r).1.Routed t.channel := by
  unfold currentStretch
  split
  · exact t.routed_openStretch _ blockSize r
  · exact h

theorem Walks.moveByte (h : t.Walks k progress) (r : Rig β) :
    t.Walks (k + 1) (t.moveByte progress r).1 := by
  cases progress with
  | idle => exact h
  | collecting place =>
      obtain rfl := h
      exact UnitCursor.advance_mod t.channel.mode k
  | sending place position s =>
      obtain ⟨rfl, hrouted⟩ := h
      exact ⟨UnitCursor.advance_mod t.channel.mode k, routed_currentStretch hrouted r⟩

/-- Byte `k` reaches the register that is its turn. -/
theorem Walks.registers (h : t.Walks k progress) (r : Rig (Logged β)) :
    t.channel.Reaches k (t.registers progress r) := by
  cases progress with
  | idle => exact False.elim h
  | collecting place =>
      obtain rfl := h
      exact .inl rfl
  | sending place position s =>
      obtain ⟨rfl, hrouted⟩ := h
      exact (routed_currentStretch hrouted r).registers_taken _ _

end Transfer

namespace Host

variable {κ β : Type} [Buses β]

theorem touches_prepare (h : Host κ (Logged β)) (i : ChannelId) :
    Logged.Touches h.rig.buses (h.prepare i).2.2.rig.buses [] := (h.carries_prepare i).touches

variable [Schedule κ (Logged β)]

theorem touches_conclude (h : Host κ (Logged β)) (idle done : Bool) :
    Logged.Touches h.rig.buses (h.conclude idle done).rig.buses [] :=
  (h.carries_conclude idle done).touches

/-- The bytes of a transfer reach the registers of its unit in turns. -/
theorem registers_byteAccesses {t : Transfer} (n k : Nat) {progress : Progress}
    {h : Host κ (Logged β)} (hw : t.Walks k progress) (j : Nat) {access : Access}
    (ha : (byteAccesses t n progress h)[j]? = some access) :
    t.channel.Reaches (k + j) access.registers := by
  induction n generalizing k j progress h with
  | zero => cases ha
  | succ n ih =>
      rw [byteAccesses] at ha
      cases j with
      | zero =>
          cases ha
          rw [Transfer.access_eq]
          exact hw.registers h.rig
      | succ j =>
          rw [List.getElem?_cons_succ] at ha
          split at ha
          · rw [show k + (j + 1) = k + 1 + j by omega]
            exact ih (k + 1) (hw.moveByte h.rig) j ha
          · cases ha

theorem registers_accesses {h : Host κ (Logged β)} {i : ChannelId} {k : Nat} {access : Access}
    (ha : (h.accesses i)[k]? = some access) :
    (h.rig.channel i).Reaches k access.registers := by
  unfold accesses at ha
  split at ha
  · cases ha
  · rename_i hmoves
    have hchannel := h.prepare_channel i
    have hwalks : (h.prepare i).1.Walks 0 (h.prepare i).2.1 := by
      unfold prepare
      dsimp only
      rw [if_neg hmoves]
      exact Transfer.walks_begin _ _ _
    rw [← hchannel, ← Nat.zero_add k]
    exact registers_byteAccesses _ 0 hwalks k ha

/-- A transfer keeps to the row of registers if and only if, for each byte it moves, the place of
its register is in the row. -/
theorem accesses_in_row_iff (h : Host κ (Logged β)) (i : ChannelId) :
    (∀ access ∈ h.accesses i, ∀ a ∈ access.registers, isRegister a = true) ↔
      ∀ k < (h.accesses i).length,
        (h.rig.channel i).port.toNat + ((h.rig.channel i).mode.offsets.getD
          (k % (h.rig.channel i).mode.size) 0).toNat ≤ 0xFF := by
  constructor
  · intro hrow k hk
    have haccess := List.getElem?_eq_getElem hk
    rw [← Channel.isRegister_register]
    rcases registers_accesses haccess with hone | ⟨-, hport⟩
    · refine hrow _ (List.getElem_mem hk) _ ?_
      rw [hone]
      exact List.mem_singleton_self _
    · exact (congrArg isRegister hport).trans (by decide)
  · intro hplaces access haccess a ha
    obtain ⟨k, hk, rfl⟩ := List.mem_iff_getElem.mp haccess
    rcases registers_accesses (List.getElem?_eq_getElem hk) with hone | ⟨hnone, -⟩
    · rw [hone, List.mem_singleton] at ha
      rw [ha]
      exact (Channel.isRegister_register _ _).mpr (hplaces k hk)
    · rw [hnone] at ha
      cases ha

end Host

/-! ### Everything together -/

/-- The pending units of a line keep to the row of registers if and only if their channels count no
register beyond its end. -/
theorem Rig.line_in_row_iff {β : Type} (r : Rig β) (m : ChannelMask) :
    (∀ a ∈ m.toList.flatMap fun i => (r.channel i).unitRegisters, isRegister a = true) ↔
      ∀ i ∈ m, (r.channel i).pending = true → ∀ o ∈ (r.channel i).mode.offsets,
        (r.channel i).port.toNat + o.toNat ≤ 0xFF := by
  have hunit (i : ChannelId) : (∀ a ∈ (r.channel i).unitRegisters, isRegister a = true) ↔
      ((r.channel i).pending = true → ∀ o ∈ (r.channel i).mode.offsets,
        (r.channel i).port.toNat + o.toNat ≤ 0xFF) := by
    unfold Channel.unitRegisters
    cases (r.channel i).pending with
    | false => simp
    | true => simp [Channel.isRegister_register]
  constructor
  · intro hrow i hi
    refine (hunit i).mp fun a ha => hrow a ?_
    exact List.mem_flatMap.mpr ⟨i, ChannelMask.mem_toList.mpr hi, ha⟩
  · intro hplaces a ha
    obtain ⟨i, hi, ha⟩ := List.mem_flatMap.mp ha
    exact (hunit i).mpr (hplaces i (ChannelMask.mem_toList.mp hi)) a ha

/-- Headers and frames reach no register; a line reaches those of its pending units; and a general
transfer reaches those of its bytes, and none ahead of them or behind.  They are all registers of
the B-bus if and only if no unit that is sent, and no byte that is moved, counts beyond the end of
the row. -/
theorem registers_in_row_iff {κ β : Type} [Buses β] [Schedule κ (Logged β)]
    (h : Host κ (Logged β)) :
    (∀ i, Logged.Touches h.rig.buses (h.rig.fetchHeader i).2.buses []) ∧
      Logged.Touches h.rig.buses h.rig.beginFrame.buses [] ∧
      (∀ m, Logged.Touches h.rig.buses (h.rig.runLine m).2.buses
          (m.toList.flatMap fun i => (h.rig.channel i).unitRegisters) ∧
        ((∀ a ∈ m.toList.flatMap fun i => (h.rig.channel i).unitRegisters,
            isRegister a = true) ↔
          ∀ i ∈ m, (h.rig.channel i).pending = true → ∀ o ∈ (h.rig.channel i).mode.offsets,
            (h.rig.channel i).port.toNat + o.toNat ≤ 0xFF)) ∧
      ∀ i, Logged.Touches h.rig.buses (h.prepare i).2.2.rig.buses [] ∧
        (∀ idle done, Logged.Touches h.rig.buses (h.conclude idle done).rig.buses []) ∧
        ((∀ access ∈ h.accesses i, ∀ a ∈ access.registers, isRegister a = true) ↔
          ∀ k < (h.accesses i).length,
            (h.rig.channel i).port.toNat + ((h.rig.channel i).mode.offsets.getD
              (k % (h.rig.channel i).mode.size) 0).toNat ≤ 0xFF) :=
  ⟨fun i => .of_eq (Rig.calls_fetchHeader h.rig i), h.rig.touches_beginFrame,
    fun m => ⟨h.rig.touches_runLine m, h.rig.line_in_row_iff m⟩,
    fun i => ⟨h.touches_prepare i, h.touches_conclude, h.accesses_in_row_iff i⟩⟩

/-! ### A channel as it is after power-on -/

section

attribute [local instance] Recorder.plain

/-- Channel 0 is as power-on leaves it, but for a count of one unit. -/
def untouched : Host Beam (Logged Recorder) where
  rig :=
    { controller := (Controller.powerOn .standard).setChannel (channelNumber 0)
        { Channel.powerOn with count := 4 }
      buses := .start (Recorder.blank false)
      cycles := 0 }
  schedule := Beam.powerOn.await .endLine Beam.cyclesPerLine

/-- The first register is the last one of the row, and half of the unit lies beyond it. -/
theorem untouched_beyond_row :
    (untouched.rig.channel 0).port = 0xFF ∧
      (untouched.accesses 0).map Access.registers = [[0x21FF], [0x21FF], [0x2200], [0x2200]] ∧
      ¬ ∀ access ∈ untouched.accesses 0, ∀ a ∈ access.registers, isRegister a = true := by
  have hregisters : (untouched.accesses 0).map Access.registers =
      [[0x21FF], [0x21FF], [0x2200], [0x2200]] := by decide +kernel
  refine ⟨rfl, hregisters, fun hrow => ?_⟩
  have hbeyond : [0x2200] ∈ (untouched.accesses 0).map Access.registers := by
    rw [hregisters]
    decide
  obtain ⟨access, haccess, hone⟩ := List.mem_map.mp hbeyond
  have hregister := hrow access haccess 0x2200 (hone ▸ List.mem_singleton_self _)
  exact absurd hregister (by decide)

end

end DmaController
