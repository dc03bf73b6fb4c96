import DmaController.Proofs.Console.RegisterFile
import DmaController.Proofs.LineTransfer.Counter

/-! # Registers that are saved and restored

A program that needs a channel for something else saves its registers and writes them back later.
A register that is written back what it shows is as it was, but for the line counter: it shows how
many lines are left in seven bits, and a count of 128, which a header can fill it with, as zero
(`Channel.put_get_lineCounter`).  Between operations a counter holds 128 where the channel has
fetched such a header, or the end of its table, and no line of it has passed since; a counter that
nobody fills with zero holds no more than that (`Console.counting_run`).  So that is where restoring
goes wrong, and then the entry is not over after 128 lines but goes on for another 128
(`restored_iff`). -/

namespace DmaController

/-! ### One channel -/

namespace Channel

theorem put_get_of_ne (c : Channel) {r : Register} (hr : r ≠ .lineCounter) :
    c.put r (c.get r) = c := by
  cases r
  case control =>
    show { c with control := .ofByte c.control.toByte } = c
    rw [Control.ofByte_toByte]
  case lineCounter => exact absurd rfl hr
  all_goals simp [put, get]

theorem put_get_lineCounter (c : Channel) :
    c.put .lineCounter (c.get .lineCounter) = { c with lines := c.lines % 0x80 } := by
  have hparts : ∀ (n : Fin 256) (b : Bool),
      let v := UInt8.ofNat n % 0x80 + if b then 0x80 else 0
      v % 0x80 = UInt8.ofNat n % 0x80 ∧ decide (0x80 ≤ v) = b := by
    decide +kernel
  obtain ⟨hlines, hrepeats⟩ := hparts ⟨c.lines.toNat, c.lines.toNat_lt⟩ c.repeats
  simp only [UInt8.ofNat_toNat] at hlines hrepeats
  unfold put get
  dsimp only
  rw [hlines, hrepeats]

theorem put_get_eq_iff {c : Channel} {r : Register} :
    c.put r (c.get r) = c ↔ (r = .lineCounter → c.lines < 0x80) := by
  have hsmall : c.lines % 0x80 = c.lines ↔ c.lines < 0x80 := by
    have hc := c.lines.toNat_lt
    simp only [← UInt8.toNat_inj, UInt8.lt_iff_toNat_lt, UInt8.toNat_mod, UInt8.reduceToNat]
    omega
  by_cases hr : r = .lineCounter
  · subst hr
    rw [put_get_lineCounter]
    constructor
    · intro hsame _
      exact hsmall.mp (congrArg Channel.lines hsame)
    · intro hlines
      rw [hsmall.mpr (hlines rfl)]
  · exact ⟨fun _ h => absurd h hr, fun _ => c.put_get_of_ne hr⟩

end Channel

/-! ### What operations keep of a channel -/

/-- Frames, lines and the counting of bytes keep what is true of channel `i`. -/
structure Rig.Upholds (i : ChannelId) (P : Channel → Prop) : Prop where
  beginFrame : ∀ {r : Rig Board}, P (r.channel i) → P (r.beginFrame.channel i)
  runLine : ∀ {r : Rig Board} (m : ChannelMask), P (r.channel i) → P ((r.runLine m).2.channel i)
  countDown : ∀ {c : Channel} (step : AddressStep), P c → P (c.countDown step)

section

variable {i : ChannelId} {P : Channel → Prop} (hP : Rig.Upholds i P)

include hP

theorem Beam.channel_fire {h : Console} (hh : P (h.rig.channel i)) :
    P ((fire h).rig.channel i) :=
  fire_induction (P := fun r => P (r.channel i)) hh (hP.beginFrame hh) (hP.runLine _ hh)
    fun _ => hh

namespace Console

variable {m : Console}

theorem channel_runChannel (hm : P (m.rig.channel i)) (j : ChannelId) :
    P ((m.runChannel j).2.rig.channel i) := by
  obtain ⟨hchannel, -⟩ := m.round_prepare j
  have hmoved : P ((Host.moveBytes (m.prepare j).1 (m.rig.channel j).length (m.prepare j).2.1
      (m.prepare j).2.2).2.rig.channel i) := by
    refine Host.moveBytes_induction (P := fun e : Console => P (e.rig.channel i))
      (fun progress e he => ?_) (fun e he => ?_) _ ((hchannel i).symm ▸ hm)
    · rw [Host.channel_byteDone]
      split
      · rename_i hi
        exact hP.countDown _ (hi ▸ he)
      · exact he
    · exact Host.settleWithin_induction (P := fun e : Console => P (e.rig.channel i))
        (fun _ => Beam.channel_fire hP) settleLimit (h := e.spend slowAccess) he
  rw [Host.runChannel_eq]
  show P ((Host.conclude _ _ _).rig.channel i)
  rw [Host.channel_conclude]
  exact hmoved

theorem channel_idleUntil (stop : Console → Bool) (limit : Nat) (hm : P (m.rig.channel i)) :
    P ((m.idleUntil stop limit).rig.channel i) :=
  idleUntil_induction (P := fun r => P (r.channel i)) (fun _ h => h) (Beam.channel_fire hP) stop
    limit hm

theorem channel_startChannels (hm : P (m.rig.channel i)) (mask : ChannelMask) :
    P ((m.startChannels mask).rig.channel i) :=
  Host.startChannels_induction (P := fun e : Console => P (e.rig.channel i))
    (fun j he => channel_runChannel hP he j) mask hm hm

theorem channel_write (hm : P (m.rig.channel i)) {a : Address} {v : UInt8}
    (hput : ∀ r, registerAt a = some (i, r) → P ((m.rig.channel i).put r v)) :
    P ((m.write a v).rig.channel i) := by
  rcases m.write_cases a v with h | h | ⟨harea, -⟩ | h | h
  · rw [h]
    exact channel_startChannels hP hm ⟨v⟩
  · rw [h]
    show P ((m.rig.controller.enable ⟨v⟩).channel i)
    rwa [Controller.channel_enable]
  · by_cases ha : (registerAt a).map Prod.fst = some i
    · obtain ⟨⟨j, r⟩, hp, rfl⟩ := Option.map_eq_some_iff.mp ha
      rw [write_of_registerAt hp, Host.modifyRig, Rig.channel_setChannel, if_pos rfl]
      exact hput r hp
    · rw [(write_apart harea).1 i ha]
      exact hm
  · rw [h]
    show P ((m.rig.controller.writeReady v).channel i)
    unfold Controller.writeReady
    split <;> exact hm
  · rw [h]
    exact hm

end Console

/-- What is true of a channel after power-on, is kept by all work, and is not written away, every
operation keeps. -/
theorem Operation.channel_run (hpower : P .powerOn) (op : Operation) {m : Console}
    (hput : ∀ a v r, op = .write a v → Console.registerAt a = some (i, r) →
      P ((m.rig.channel i).put r v))
    (hm : P (m.rig.channel i)) : P ((op.run m).rig.channel i) := by
  cases op with
  | write a v => exact Console.channel_write hP hm fun r => hput a v r rfl
  | transfer j => exact Console.channel_runChannel hP hm j
  | lines n => exact Console.channel_idleUntil hP _ _ hm
  | frame => exact Console.channel_idleUntil hP _ _ hm
  | load a bytes => exact hm
  | reset =>
      show P (m.rig.controller.resetChannels.channel i)
      rw [Controller.channel_resetChannels]
      exact hpower

end

/-! ### The line counter between operations -/

/-- The operation does not fill the line counter of channel `i` with zero. -/
def Operation.KeepsCounting (i : ChannelId) : Operation → Prop
  | write a v => Console.registerAt a = some (i, .lineCounter) → v % 0x80 ≠ 0
  | _ => True

instance (i : ChannelId) : (op : Operation) → Decidable (op.KeepsCounting i)
  | .write a v =>
      inferInstanceAs (Decidable (Console.registerAt a = some (i, .lineCounter) → v % 0x80 ≠ 0))
  | .transfer _ | .lines _ | .frame | .load _ _ | .reset => isTrue trivial

theorem Channel.counting_put {c : Channel} (h : c.Counting) {r : Register} {v : UInt8}
    (hv : r = .lineCounter → v % 0x80 ≠ 0) : (c.put r v).Counting := by
  cases r with
  | lineCounter =>
      refine ⟨hv rfl, ?_⟩
      show v % 0x80 ≤ 0x80
      simp only [UInt8.le_iff_toNat_le, UInt8.toNat_mod, UInt8.reduceToNat]
      omega
  | _ => exact h

theorem Rig.upholds_counting (i : ChannelId) : Rig.Upholds i Channel.Counting :=
  ⟨counting_beginFrame, fun m h => counting_runLine h m, fun _ h => h⟩

/-- As long as nobody fills it with zero, a line counter is as headers fill it and lines leave
it. -/
theorem Console.counting_run {i : ChannelId} (ops : List Operation)
    (hops : ∀ op ∈ ops, op.KeepsCounting i) {m : Console} (hm : (m.rig.channel i).Counting) :
    ((ops.foldl (fun m op => op.run m) m).rig.channel i).Counting := by
  induction ops generalizing m with
  | nil => exact hm
  | cons op ops ih =>
      obtain ⟨hop, hrest⟩ := List.forall_mem_cons.mp hops
      refine ih hrest (op.channel_run (Rig.upholds_counting i) ⟨by decide, by decide⟩ ?_ hm)
      rintro a v r rfl ha
      exact Channel.counting_put hm fun hr => hop (hr ▸ ha)

/-! ### Saving and restoring -/

namespace Console

variable {m : Console} {a : Address} {p : RegisterId}

theorem write_read (ha : registerAt a = some p) :
    m.write a (m.read a) =
      m.modifyRig
        (·.setChannel p.1 ((m.rig.channel p.1).put p.2 ((m.rig.channel p.1).get p.2))) := by
  rw [read_of_registerAt ha, write_of_registerAt ha]
  rfl

theorem write_read_eq_iff (ha : registerAt a = some p) :
    m.write a (m.read a) = m ↔ (p.2 = .lineCounter → (m.rig.channel p.1).lines < 0x80) := by
  rw [← Channel.put_get_eq_iff, write_read ha]
  constructor
  · intro hsame
    have hchannel := congrArg (fun m : Console => m.rig.channel p.1) hsame
    simpa only [Host.modifyRig, Rig.channel_setChannel, if_pos] using hchannel
  · intro hsame
    rw [hsame, Host.modifyRig, Rig.setChannel, Rig.channel, Controller.setChannel_channel]

end Console

/-- In any state, writing back to a register what it shows changes nothing at all, unless it is the
line counter and holds 128 or more; that one is left with what it holds modulo 128.  From power-on
on, as long as no operation fills the counter with zero, it holds 1 to 128, so 128 is the only count
that does not survive.  An entry of 128 lines would be over after the 128th line that the channel
is given; restored, it goes on up to the 256th, and its unit is repeated on all of them or on none,
as before. -/
theorem restoring_transparent_iff (m : Console) {a : Address} {i : ChannelId} {r : Register}
    (ha : Console.registerAt a = some (i, r)) :
    let c := m.rig.channel i
    let m' := m.write a (m.read a)
    (m' = m ↔ (r = .lineCounter → c.lines < 0x80)) ∧
      (r = .lineCounter →
        m' = m.modifyRig (·.setChannel i { c with lines := c.lines % 0x80 })) ∧
      (∀ (settings : Settings) (ops : List Operation),
        m = ops.foldl (fun m op => op.run m) (.powerOn settings) →
        (∀ op ∈ ops, op.KeepsCounting i) →
          c.Counting ∧ (m' = m ↔ (r = .lineCounter → c.lines ≠ 0x80))) ∧
      (r = .lineCounter → c.lines = 0x80 → ∀ ms : List ChannelMask,
        (ms.countP (i ∈ ·) < 0x80 →
          ((m.rig.runLines ms).channel i).linesLeft + ms.countP (i ∈ ·) = 0x80) ∧
        (ms.countP (i ∈ ·) < 0x100 →
          ((m'.rig.runLines ms).channel i).linesLeft + ms.countP (i ∈ ·) = 0x100 ∧
            ((m'.rig.runLines ms).channel i).repeats = c.repeats)) := by
  intro c m'
  have hsame : m' = m ↔ (r = .lineCounter → c.lines < 0x80) := Console.write_read_eq_iff ha
  have hcounter : r = .lineCounter →
      m' = m.modifyRig (·.setChannel i { c with lines := c.lines % 0x80 }) := by
    rintro rfl
    show m.write a (m.read a) = _
    rw [Console.write_read ha, Channel.put_get_lineCounter]
  refine ⟨hsame, hcounter, ?_, ?_⟩
  · rintro settings ops hm hops
    have hcounting : c.Counting := by
      show (m.rig.channel i).Counting
      rw [hm]
      refine Console.counting_run ops hops ?_
      show ((Controller.powerOn settings).channel i).Counting
      rw [Controller.channel_powerOn]
      exact ⟨by decide, by decide⟩
    refine ⟨hcounting, hsame.trans (imp_congr_right fun _ => ?_)⟩
    obtain ⟨-, hle⟩ := hcounting
    exact UInt8.lt_iff_le_and_ne.trans (and_iff_right hle)
  · intro hr hlines ms
    have hchannel : m'.rig.channel i = { c with lines := 0 } := by
      rw [hcounter hr, Host.modifyRig, Rig.channel_setChannel, if_pos rfl, hlines]
      rfl
    have hleft : c.linesLeft = 0x80 := by
      rw [Channel.linesLeft, hlines]
      rfl
    have hleft' : (m'.rig.channel i).linesLeft = 0x100 := by
      rw [hchannel]
      rfl
    constructor
    · intro hms
      exact (Rig.linesLeft_runLines ms (r := m.rig) (by rwa [← hleft] at hms)).1.trans hleft
    · intro hms
      obtain ⟨hrest, hrepeats⟩ := Rig.linesLeft_runLines ms (r := m'.rig) (by rwa [hleft'])
      exact ⟨hrest.trans hleft', hrepeats.trans (by rw [hchannel])⟩

/-- A table with an entry of one line, one of 128 lines, and another of one line. -/
def longEntry : List Operation :=
  [.load 0x7E1000 [0x01, 0xAA, 0x80], .load 0x7E1083 [0x01, 0xEE], .write 0x4300 0x00,
    .write 0x4301 0x21, .write 0x4302 0x00, .write 0x4303 0x10, .write 0x4304 0x7E,
    .write 0x420C 0x01, .lines 1]

/-- The console behind the first line, with the entry of 128 lines before it. -/
def beforeLongEntry : Console := longEntry.foldl (fun m op => op.run m) (.powerOn .standard)

/-- With the place in the table restored, the channel is as it was; with the line counter restored,
it has 128 lines left of the entry when it should have none. -/
theorem beforeLongEntry_restored :
    let m := beforeLongEntry
    m.write 0x4308 (m.read 0x4308) = m ∧ (m.rig.channel 0).lines = 0x80 ∧
      m.write 0x430A (m.read 0x430A) ≠ m ∧
      (((m.write 0x430A (m.read 0x430A)).rig.runLines (List.replicate 128 ⟨1⟩)).channel
        0).linesLeft = 128 := by
  intro m
  have hlines : (m.rig.channel 0).lines = 0x80 := by decide +kernel
  obtain ⟨htable, -⟩ := restoring_transparent_iff m (a := 0x4308) (i := 0) (r := .tableLow) rfl
  obtain ⟨-, -, hcounting, hleft⟩ :=
    restoring_transparent_iff m (a := 0x430A) (i := 0) (r := .lineCounter) rfl
  obtain ⟨-, hsame⟩ := hcounting .standard longEntry rfl (by decide)
  obtain ⟨-, hrest⟩ := hleft rfl hlines (List.replicate 128 ⟨1⟩)
  have hcount : (List.replicate 128 (⟨1⟩ : ChannelMask)).countP (0 ∈ ·) = 128 := by decide +kernel
  rw [hcount] at hrest
  refine ⟨htable.mpr nofun, hlines, fun h => hsame.mp h rfl hlines, ?_⟩
  exact Nat.add_right_cancel (hrest (by decide)).1

/-- The line counter is written back what it shows.  That changes the channel, and when the entry is
over, the byte of the next one should come and another comes. -/
theorem longEntry_outlived :
    let m := beforeLongEntry
    let m' := m.write 0x430A (m.read 0x430A)
    Console.registerAt 0x430A = some (0, .lineCounter) ∧ m'.rig.channel 0 ≠ m.rig.channel 0 ∧
      (m.runLines 129).board.register 0x2121 = 0xEE ∧
      (m'.runLines 129).board.register 0x2121 = 0x01 := by
  decide +kernel

end DmaController
