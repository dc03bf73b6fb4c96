import Mathlib.Logic.Function.Basic
import DmaController.Proofs.Console.Operations

/-! # The channel registers as an array of bytes

The processor reaches the registers of the channels at `$4300` to `$437F` of all system banks.  The
places there stand for eight times twelve registers (`Console.registerAt`): the banks make no
difference, the last place of a channel stands for the same register as its twelfth, and three
places of each channel are holes (`registerAt_eq_iff`).

Inside a channel the registers are bit fields, halves of words, and a counter in two parts.  From
outside they are an array with a byte for each register (`Console.registerFile`).  A write of the
processor stores a byte in it or does nothing (`registerFile_write`), and so after any row of writes
a register shows what was written to it last (`registers_hold_writes`). -/

namespace DmaController

/-- A register of a channel. -/
abbrev RegisterId := ChannelId × Register

/-- The register of a channel at a place of the register area, where there is one. -/
def Controller.registerAt (a : UInt16) : Option RegisterId :=
  if isChannelRegister a then (Register.at? a.toNat).map fun r => (channelOf a, r) else none

/-- The register of a channel at an address of the processor, where there is one. -/
def Console.registerAt (a : Address) : Option RegisterId :=
  if isSystemBank (Address.bank a) then Controller.registerAt (Address.offset a) else none

/-! ### Places and registers -/

/-- The places of a channel that show its last register. -/
def Register.isScratch (position : Nat) : Bool := position % 16 == 11 || position % 16 == 15

/-- The places of a channel that show nothing. -/
def Register.isHole (position : Nat) : Bool :=
  decide (12 ≤ position % 16) && decide (position % 16 ≤ 14)

theorem Register.at?_eq_none_iff {n : Nat} : at? n = none ↔ isHole n = true := by
  have hpositions : ∀ n : Fin 16, at? n = none ↔ isHole n = true := by decide
  have hreduced : at? (n % 16) = at? n ∧ isHole (n % 16) = isHole n := by
    simp only [at?, isHole, Nat.mod_mod, and_self]
  have hn := hpositions ⟨n % 16, Nat.mod_lt n (by decide)⟩
  rwa [hreduced.1, hreduced.2] at hn

/-- Places of a channel show the same register if they are the same or both show its last one. -/
theorem Register.at?_eq_iff {m n : Nat} {r : Register} (hm : at? m = some r) :
    at? n = some r ↔ m % 16 = n % 16 ∨ isScratch m = true ∧ isScratch n = true := by
  have hpositions : ∀ m n : Fin 16, ∀ r, at? m = some r →
      (at? n = some r ↔ m.val = n.val ∨ isScratch m = true ∧ isScratch n = true) := by
    intro m n r
    cases r <;> revert m n <;> decide
  have hreduced : ∀ n : Nat, at? (n % 16) = at? n ∧ isScratch (n % 16) = isScratch n := by
    intro n
    simp only [at?, isScratch, Nat.mod_mod, and_self]
  have hpair := hpositions ⟨m % 16, Nat.mod_lt m (by decide)⟩ ⟨n % 16, Nat.mod_lt n (by decide)⟩ r
  simp only [hreduced] at hpair
  exact hpair hm

namespace Controller

theorem registerAt_eq_some {a : UInt16} {p : RegisterId} :
    registerAt a = some p ↔
      isChannelRegister a = true ∧ channelOf a = p.1 ∧ Register.at? a.toNat = some p.2 := by
  obtain ⟨i, r⟩ := p
  unfold registerAt
  by_cases ha : isChannelRegister a = true
  · rw [if_pos ha, Option.map_eq_some_iff]
    constructor
    · rintro ⟨_, hr, h⟩
      obtain ⟨hi, rfl⟩ := Prod.mk.inj h
      exact ⟨ha, hi, hr⟩
    · rintro ⟨-, rfl, hr⟩
      exact ⟨r, hr, rfl⟩
  · rw [if_neg ha]
    constructor
    · rintro ⟨⟩
    · rintro ⟨h, -⟩
      exact absurd h ha

/-- Two places of the register area belong to the same channel if they agree but for the last
digit. -/
theorem channelOf_eq_iff {a b : UInt16} (ha : isChannelRegister a = true)
    (hb : isChannelRegister b = true) :
    channelOf a = channelOf b ↔ a.toNat / 16 = b.toNat / 16 := by
  simp only [isChannelRegister, Bool.and_eq_true, decide_eq_true_eq, UInt16.le_iff_toNat_le,
    UInt16.reduceToNat] at ha hb
  simp only [channelOf, channelNumber, Fin.mk.injEq]
  omega

end Controller

namespace Console

theorem registerAt_eq_some {a : Address} {p : RegisterId} :
    registerAt a = some p ↔ isSystemBank (Address.bank a) = true ∧
      Controller.isChannelRegister (Address.offset a) = true ∧
      Controller.channelOf (Address.offset a) = p.1 ∧
      Register.at? (Address.offset a).toNat = some p.2 := by
  unfold registerAt
  split
  · rename_i hbank
    rw [Controller.registerAt_eq_some]
    exact ⟨fun h => ⟨hbank, h⟩, fun h => h.2⟩
  · rename_i hbank
    exact ⟨nofun, fun h => absurd h.1 hbank⟩

theorem registerAt_eq_none_iff {a : Address}
    (ha : Controller.isChannelRegister (Address.offset a) = true) :
    registerAt a = none ↔
      isSystemBank (Address.bank a) = false ∨ Register.isHole (Address.offset a).toNat = true := by
  unfold registerAt Controller.registerAt
  rw [if_pos ha, ← Register.at?_eq_none_iff]
  cases isSystemBank (Address.bank a) with
  | true => simp only [if_true, Option.map_eq_none_iff, Bool.true_eq_false, false_or]
  | false => simp only [Bool.false_eq_true, if_false, true_or]

/-- Two addresses of the register area show the same register if and only if they have the same
offset, in whichever banks, or are the two places of the last register of one channel. -/
theorem registerAt_eq_iff {a b : Address} {p : RegisterId} (ha : registerAt a = some p)
    (hbank : isSystemBank (Address.bank b) = true)
    (hb : Controller.isChannelRegister (Address.offset b) = true) :
    registerAt b = some p ↔ Address.offset a = Address.offset b ∨
      (Address.offset a).toNat / 16 = (Address.offset b).toNat / 16 ∧
        Register.isScratch (Address.offset a).toNat = true ∧
        Register.isScratch (Address.offset b).toNat = true := by
  obtain ⟨-, ha, hchannel, hr⟩ := registerAt_eq_some.mp ha
  have hsplit : Address.offset a = Address.offset b ↔
      (Address.offset a).toNat / 16 = (Address.offset b).toNat / 16 ∧
        (Address.offset a).toNat % 16 = (Address.offset b).toNat % 16 := by
    rw [← UInt16.toNat_inj]
    omega
  rw [registerAt_eq_some, ← hchannel, Register.at?_eq_iff hr, eq_comm (a := Controller.channelOf _),
    Controller.channelOf_eq_iff ha hb, hsplit, ← and_or_left]
  simp only [hbank, hb, true_and]

/-! ### The array -/

/-- The bytes that the registers of all channels show. -/
def registerFile (m : Console) : RegisterId → UInt8 := fun p => (m.rig.channel p.1).get p.2

/-- A byte is written to an address of the register area. -/
def store (file : RegisterId → UInt8) (w : Address × UInt8) : RegisterId → UInt8 :=
  match registerAt w.1 with
  | some p => Function.update file p w.2
  | none => file

/-- The last byte that a row of writes has for a register. -/
def lastWritten (p : RegisterId) (writes : List (Address × UInt8)) : Option UInt8 :=
  (writes.filter fun w => registerAt w.1 = some p).getLast?.map Prod.snd

theorem lastWritten_cons (p : RegisterId) (w : Address × UInt8) (writes : List (Address × UInt8)) :
    lastWritten p (w :: writes) =
      (lastWritten p writes).or (if registerAt w.1 = some p then some w.2 else none) := by
  unfold lastWritten
  rw [List.filter_cons]
  by_cases hw : registerAt w.1 = some p
  · rw [if_pos (decide_eq_true hw), if_pos hw, List.getLast?_cons]
    cases (writes.filter fun w => registerAt w.1 = some p).getLast? <;> rfl
  · rw [if_neg (by simpa using hw), if_neg hw, Option.or_none]

/-- After a row of writes, an array holds the last byte written to a place. -/
theorem foldl_store (writes : List (Address × UInt8)) (file : RegisterId → UInt8)
    (p : RegisterId) : writes.foldl store file p = (lastWritten p writes).getD (file p) := by
  induction writes generalizing file with
  | nil => rfl
  | cons w writes ih =>
      rw [List.foldl_cons, ih, lastWritten_cons]
      cases lastWritten p writes with
      | some v => rfl
      | none =>
          rw [Option.none_or]
          unfold store
          by_cases hw : registerAt w.1 = some p
          · rw [if_pos hw, hw]
            exact Function.update_self p w.2 file
          · rw [if_neg hw]
            cases hq : registerAt w.1 with
            | none => rfl
            | some q =>
                refine Function.update_of_ne ?_ w.2 file
                rintro rfl
                exact hw hq

/-! ### Accesses of the processor -/

variable {m : Console} {a : Address} {v : UInt8}

/-- A register shows the processor its byte of the array. -/
theorem read_of_registerAt {p : RegisterId} (ha : registerAt a = some p) :
    m.read a = m.registerFile p := by
  obtain ⟨hbank, harea, hchannel, hr⟩ := registerAt_eq_some.mp ha
  unfold read
  dsimp only
  rw [hbank, harea, if_pos (Bool.and_true _), Controller.readRegister, if_pos harea,
    Channel.readRegister, hr, hchannel]
  rfl

/-- A hole of the register area shows the byte that floats on the bus. -/
theorem read_of_hole (hbank : isSystemBank (Address.bank a) = true)
    (harea : Controller.isChannelRegister (Address.offset a) = true)
    (hhole : Register.isHole (Address.offset a).toNat = true) : m.read a = m.board.openBus := by
  unfold read
  dsimp only
  rw [hbank, harea, if_pos (Bool.and_true _), Controller.readRegister, if_pos harea,
    Channel.readRegister, Register.at?_eq_none_iff.mpr hhole]
  rfl

/-- A write to a register of a channel. -/
theorem write_of_registerAt {p : RegisterId} (ha : registerAt a = some p) (v : UInt8) :
    m.write a v = m.modifyRig (·.setChannel p.1 ((m.rig.channel p.1).put p.2 v)) := by
  obtain ⟨hbank, harea, hchannel, hr⟩ := registerAt_eq_some.mp ha
  have hcontroller : isControllerAddress a = true := by
    simp only [isControllerAddress, hbank, harea, Bool.true_and, Bool.or_true, Bool.true_or]
  have hwritten : ∀ c : Channel, c.writeRegister (Address.offset a).toNat v = c.put p.2 v := by
    intro c
    rw [Channel.writeRegister, hr]
  rw [write_of_register hcontroller harea, ← hwritten, ← hchannel]
  rfl

/-- A write to any other address with an offset of the register area leaves the controller as it
is; so does a write to a hole with all the rest. -/
theorem controller_write_of_no_register (harea : Controller.isChannelRegister (Address.offset a))
    (ha : registerAt a = none) : (m.write a v).rig.controller = m.rig.controller := by
  unfold registerAt Controller.registerAt at ha
  by_cases hbank : isSystemBank (Address.bank a) = true
  · rw [if_pos hbank, if_pos harea, Option.map_eq_none_iff] at ha
    have hcontroller : isControllerAddress a = true := by
      simp only [isControllerAddress, hbank, harea, Bool.true_and, Bool.or_true, Bool.true_or]
    rw [rig_write hcontroller harea, Channel.writeRegister, ha]
    exact Controller.setChannel_channel _ _
  · have hcontroller : ¬ isControllerAddress a = true := by
      simp only [isControllerAddress, hbank, Bool.false_and, Bool.false_eq_true, not_false_eq_true]
    rw [write, if_neg hcontroller]
    rfl

/-- A write to the register area is a write to the array. -/
theorem registerFile_write (harea : Controller.isChannelRegister (Address.offset a) = true) :
    (m.write a v).registerFile = store m.registerFile (a, v) := by
  funext q
  unfold store registerFile
  dsimp only
  cases ha : registerAt a with
  | none => rw [Rig.channel, controller_write_of_no_register harea ha]; rfl
  | some p =>
      rw [write_of_registerAt ha, Host.modifyRig, Rig.channel_setChannel]
      obtain ⟨i, r⟩ := p
      obtain ⟨j, s⟩ := q
      dsimp only
      by_cases hi : i = j
      · subst hi
        rw [if_pos rfl]
        by_cases hr : r = s
        · subst hr
          rw [Function.update_self, Channel.get_put]
        · rw [Channel.get_put_of_ne _ v hr, Function.update_of_ne]
          exact fun h => hr (Prod.mk.inj h).2.symm
      · rw [if_neg hi, Function.update_of_ne]
        exact fun h => hi (Prod.mk.inj h).1.symm

/-! ### Rows of writes -/

/-- The processor writes one byte after the other. -/
def writeAll (m : Console) (writes : List (Address × UInt8)) : Console :=
  writes.foldl (fun m w => m.write w.1 w.2) m

/-- A row of writes to the register area is a row of writes to the array. -/
theorem registerFile_writeAll (writes : List (Address × UInt8)) {m : Console}
    (harea : ∀ w ∈ writes, Controller.isChannelRegister (Address.offset w.1) = true) :
    (m.writeAll writes).registerFile = writes.foldl store m.registerFile := by
  induction writes generalizing m with
  | nil => rfl
  | cons w writes ih =>
      obtain ⟨hw, hrest⟩ := List.forall_mem_cons.mp harea
      rw [List.foldl_cons, ← registerFile_write hw]
      exact ih hrest

/-- A write to the register area leaves all channels alone but the one of its register, and all of
the controller if it has none. -/
theorem write_apart (harea : Controller.isChannelRegister (Address.offset a) = true) :
    (∀ i, (registerAt a).map Prod.fst ≠ some i →
        (m.write a v).rig.channel i = m.rig.channel i) ∧
      (registerAt a = none → (m.write a v).rig.controller = m.rig.controller) := by
  refine ⟨fun i hi => ?_, controller_write_of_no_register harea⟩
  cases ha : registerAt a with
  | none => rw [Rig.channel, controller_write_of_no_register harea ha]; rfl
  | some p =>
      have hp : p.1 ≠ i := by
        rintro rfl
        exact hi (by rw [ha]; rfl)
      rw [write_of_registerAt ha, Host.modifyRig, Rig.channel_setChannel, if_neg hp]

/-- So does a row of them. -/
theorem writeAll_apart (writes : List (Address × UInt8)) {m : Console}
    (harea : ∀ w ∈ writes, Controller.isChannelRegister (Address.offset w.1) = true) :
    (∀ i, (∀ w ∈ writes, (registerAt w.1).map Prod.fst ≠ some i) →
        (m.writeAll writes).rig.channel i = m.rig.channel i) ∧
      ((∀ w ∈ writes, registerAt w.1 = none) →
        (m.writeAll writes).rig.controller = m.rig.controller) := by
  induction writes generalizing m with
  | nil => exact ⟨fun _ _ => rfl, fun _ => rfl⟩
  | cons w writes ih =>
      obtain ⟨hw, hrest⟩ := List.forall_mem_cons.mp harea
      obtain ⟨hfirst, hfirst'⟩ := write_apart (m := m) (v := w.2) hw
      obtain ⟨hlater, hlater'⟩ := ih hrest (m := m.write w.1 w.2)
      constructor
      · intro i hi
        obtain ⟨hi, hirest⟩ := List.forall_mem_cons.mp hi
        exact (hlater i hirest).trans (hfirst i hi)
      · intro hnone
        obtain ⟨hnone, hrest⟩ := List.forall_mem_cons.mp hnone
        exact (hlater' hrest).trans (hfirst' hnone)

end Console

/-- Two addresses of the register area in system banks stand for the same register if they have the
same offset or are the two places of the last register of one channel.  From any state, after any
row of writes with offsets in the register area, through whichever banks, each register shows the
last byte written to it, or else what it showed before; the holes show the byte that floats on the
bus.  A channel is as it was in all respects if no write was to one of its registers, and if all
writes were to holes or went through other banks, so is the whole controller. -/
theorem registers_hold_writes (m : Console) {writes : List (Address × UInt8)}
    (harea : ∀ w ∈ writes, Controller.isChannelRegister (Address.offset w.1) = true) :
    (∀ a b p, Console.registerAt a = some p → isSystemBank (Address.bank b) = true →
        Controller.isChannelRegister (Address.offset b) = true →
          (Console.registerAt b = some p ↔ Address.offset a = Address.offset b ∨
            (Address.offset a).toNat / 16 = (Address.offset b).toNat / 16 ∧
              Register.isScratch (Address.offset a).toNat = true ∧
              Register.isScratch (Address.offset b).toNat = true)) ∧
      (∀ a p, Console.registerAt a = some p →
        (m.writeAll writes).read a = (Console.lastWritten p writes).getD (m.read a)) ∧
      (∀ a, isSystemBank (Address.bank a) = true →
        Controller.isChannelRegister (Address.offset a) = true →
        Register.isHole (Address.offset a).toNat = true →
          (m.writeAll writes).read a = (m.writeAll writes).board.openBus) ∧
      (∀ i, (∀ w ∈ writes, (Console.registerAt w.1).map Prod.fst ≠ some i) →
        (m.writeAll writes).rig.channel i = m.rig.channel i) ∧
      ((∀ w ∈ writes, isSystemBank (Address.bank w.1) = false ∨
          Register.isHole (Address.offset w.1).toNat = true) →
        (m.writeAll writes).rig.controller = m.rig.controller) := by
  obtain ⟨hchannels, hcontroller⟩ := Console.writeAll_apart writes harea (m := m)
  refine ⟨fun a b p ha hbank hb => Console.registerAt_eq_iff ha hbank hb, fun a p ha => ?_,
    fun a hbank ha hhole => Console.read_of_hole hbank ha hhole, hchannels, fun hnone => ?_⟩
  · rw [Console.read_of_registerAt ha, Console.read_of_registerAt ha,
      Console.registerFile_writeAll writes harea, Console.foldl_store]
  · exact hcontroller fun w hw =>
      (Console.registerAt_eq_none_iff (harea w hw)).mpr (hnone w hw)

/-- Writes through several banks, to both places of the last register of channel 0, to a hole, and
past the system banks. -/
def scatteredWrites : List (Address × UInt8) :=
  [(0x80430F, 0x12), (0x00430A, 0x80), (0x7E4302, 0x77), (0x3F430C, 0x55), (0x004375, 0x34),
    (0xBF430B, 0x56)]

/-- The last register of channel 0 shows the later of its two bytes, its line counter all eight bits
written, and its address what it did before; a hole shows the byte that was left floating by the
write to work RAM. -/
theorem scatteredWrites_shown :
    let m := (Console.powerOn .standard).writeAll scatteredWrites
    m.read 0x80430F = 0x56 ∧ m.read 0x00430A = 0x80 ∧ m.read 0x004302 = 0xFF ∧
      m.read 0x014375 = 0x34 ∧ m.read 0x00430D = 0x77 ∧
      m.rig.channel 1 = Channel.powerOn := by
  intro m
  have harea : ∀ w ∈ scatteredWrites,
      Controller.isChannelRegister (Address.offset w.1) = true :=
    List.all_eq_true.mp (by decide)
  have hother : scatteredWrites.all fun w =>
      decide ((Console.registerAt w.1).map Prod.fst ≠ some 1) := by
    decide
  obtain ⟨-, hread, hhole, hapart, -⟩ := registers_hold_writes (Console.powerOn .standard) harea
  refine ⟨?_, ?_, ?_, ?_, ?_, ?_⟩
  · exact (hread 0x80430F (0, .scratch) (by decide)).trans (by decide)
  · exact (hread 0x00430A (0, .lineCounter) (by decide)).trans (by decide)
  · exact (hread 0x004302 (0, .addressLow) (by decide)).trans (by decide)
  · exact (hread 0x014375 (7, .countLow) (by decide)).trans (by decide)
  · exact (hhole 0x00430D (by decide) (by decide) (by decide)).trans (by decide +kernel)
  · refine (hapart 1 fun w hw => ?_).trans (by decide)
    exact of_decide_eq_true (List.all_eq_true.mp hother w hw)

end DmaController
