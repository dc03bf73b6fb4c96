import DmaController.Proofs.Console.Kept
import DmaController.Proofs.LineTransfer.Writes
import DmaController.Proofs.Recorder

/-! # A table from its first line to its last

A frame takes an enabled channel to the first line of its table, and each call of `runLine` that is
given the channel plays one line of it.  Between the calls anything may happen that leaves the
channel and the memory alone (`LineRun`), other channels may be given to the same calls, and some
calls may go without the channel.  The calls that have it play the expansion of the table, line by
line, and what a call writes is what its channels write in their turns
(`lineRun_plays_expansion`).  The memory has to be steady only against what the channels of the
calls do write: the registers of channel `i`, and the registers and places that the others have
units for. -/

namespace DmaController

/-! ### A run of lines -/

/-- From `r` to `r'` lines were run, the channels of each standing beside the rig they were given
to.  In between anything may have happened that has left channel `i` and the memory alone. -/
inductive LineRun {β : Type} [Buses β] (good : β → Prop) (i : ChannelId) :
    Rig (Traced β) → List (Rig (Traced β) × ChannelMask) → Rig (Traced β) → Prop
  | done (r : Rig (Traced β)) : LineRun good i r [] r
  | aside {r r' r'' : Rig (Traced β)} {calls : List (Rig (Traced β) × ChannelMask)}
      (channel : r'.channel i = r.channel i)
      (steady : good r.buses.inner → good r'.buses.inner)
      (rest : LineRun good i r' calls r'') : LineRun good i r calls r''
  | line {r r' : Rig (Traced β)} {calls : List (Rig (Traced β) × ChannelMask)} (m : ChannelMask)
      (rest : LineRun good i (r.runLine m).2 calls r') : LineRun good i r ((r, m) :: calls) r'

/-- Over a run, the calls that are given the channel play its lines one after the other. -/
theorem LineRun.plays {β : Type} [Buses β] {M : Address → Option UInt8} {clear : Clearance}
    {good : β → Prop} (hs : SteadyBytes M clear good) {i : ChannelId} {c₀ : Channel}
    (hforward : c₀.control.reverse = false) (hclear : c₀.RegistersClear clear)
    {r r' : Rig (Traced β)} {calls : List (Rig (Traced β) × ChannelMask)}
    (hrun : LineRun good i r calls r')
    (hspares : ∀ call ∈ calls, ∀ j ∈ call.2, j ≠ i → (call.1.channel j).Spares clear) :
    ∀ (ls : List (List UInt8)), r.Playing M good c₀ i ls →
      ∀ (k : Nat) (call : Rig (Traced β) × ChannelMask) (l : List UInt8),
        (calls.filter fun call => i ∈ call.2)[k]? = some call → ls[k]? = some l →
        call.1.lineWrites call.2 i = c₀.unitWrites l ∧
          (i ∈ (call.1.runLine call.2).1 ↔ k + 1 < ls.length) := by
  induction hrun with
  | done r =>
      intro ls _ k call l hk _
      cases hk
  | aside hchannel hsteady _ ih =>
      intro ls hp
      refine ih hspares ls ⟨hsteady hp.steady, ?_, ?_⟩
      · rw [hchannel]
        exact hp.plays
      · rw [hchannel]
        exact hp.cached
  | @line r r' calls m _ ih =>
      intro ls hp k call l hk hl
      have hspares' := hspares (r, m) List.mem_cons_self
      have hrest : ∀ call ∈ calls, ∀ j ∈ call.2, j ≠ i → (call.1.channel j).Spares clear :=
        fun call hcall => hspares call (List.mem_cons_of_mem _ hcall)
      by_cases hm : i ∈ m
      · cases ls with
        | nil => cases hl
        | cons l₀ ls =>
            obtain ⟨hwrites, hstays, hnext⟩ := Rig.runLine_plays hs hforward hclear hm hp hspares'
            rw [List.filter_cons_of_pos (by simpa using hm)] at hk
            cases k with
            | zero =>
                cases hk
                cases hl
                refine ⟨hwrites, hstays.trans ?_⟩
                rw [List.length_cons, ← List.length_pos_iff]
                omega
            | succ k =>
                rw [List.getElem?_cons_succ] at hk hl
                have hne : ls ≠ [] := by
                  intro h
                  rw [h] at hl
                  cases hl
                have := ih hrest ls (hnext hne) k call l hk hl
                rwa [List.length_cons, Nat.add_lt_add_iff_right]
      · rw [List.filter_cons_of_neg (by simpa using hm)] at hk
        exact ih hrest ls (Rig.runLine_keeps_playing hs hm hp hspares') k call l hk hl

/-- After a frame has begun with a channel enabled, the lines that are given the channel play the
expansion of its table: call `k` writes the bytes of line `k` to the registers of the unit, in
order, and every call but that for the last line says that the channel goes on.  The call writes
nothing but what its channels write in their turns. -/
theorem lineRun_plays_expansion {β : Type} [Buses β] {M : Address → Option UInt8}
    {clear : Clearance} {good : β → Prop} (hs : SteadyBytes M clear good) {r r' : Rig (Traced β)}
    {i : ChannelId} (hg : good r.buses.inner) (henabled : i ∈ r.controller.enabled)
    (hforward : (r.channel i).control.reverse = false)
    (hclear : (r.channel i).RegistersClear clear)
    {es : List (Entry (r.channel i).mode)}
    (hlaid : Laid M (r.channel i) (r.channel i).address es)
    {calls : List (Rig (Traced β) × ChannelMask)} (hrun : LineRun good i r.beginFrame calls r')
    (hspares : ∀ call ∈ calls, ∀ j ∈ call.2, j ≠ i → (call.1.channel j).Spares clear)
    {k : Nat} {call : Rig (Traced β) × ChannelMask} {line : List UInt8}
    (hk : (calls.filter fun call => i ∈ call.2)[k]? = some call)
    (hline : (expansion es)[k]? = some line) :
    call.1.lineWrites call.2 i = (r.channel i).unitWrites line ∧
      (i ∈ (call.1.runLine call.2).1 ↔ k + 1 < totalLines es) ∧
      Traced.Calls BusCall.written? call.1.buses (call.1.runLine call.2).2.buses
        ((call.1.turns call.2).flatMap Rig.writesInTurn) := by
  cases es with
  | nil => cases hline
  | cons e es =>
      have hp := Rig.beginFrame_plays hs hg henabled hlaid
      obtain ⟨hwrites, hstays⟩ := hrun.plays hs hforward hclear hspares _ hp k call line hk hline
      rw [← length_expansion]
      exact ⟨hwrites, hstays, call.1.calls_runLine call.2⟩

/-! ### A table of two entries -/

/-- Two entries for units of two bytes: two lines with a unit on the first, and one line. -/
def twoEntries : List (Entry .mode1) :=
  [⟨0x02, [0xAA, 0xBB], by decide, by decide⟩, ⟨0x81, [0xCC, 0xDD], by decide, by decide⟩]

/-- The bytes of the two entries, with a zero header behind them. -/
def tableBytes : List UInt8 := [0x02, 0xAA, 0xBB, 0x81, 0xCC, 0xDD, 0x00]

/-- The two entries lie at the end of a block of work RAM, and further on is a table into which
units are collected. -/
def tableMemory : Memory := (Memory.zero.load 0x7E2FFC tableBytes).load 0x7E4000 [0x83]

/-- The cells of the two entries. -/
def tableCells (c : Nat) : Prop := 0x7E2FFC ≤ c ∧ c < 0x7E3003

instance : DecidablePred tableCells := fun _ => inferInstanceAs (Decidable (_ ∧ _))

section

variable {β : Type}

/-- Channel 1 has the two entries, and channel 3 collects bytes from a register. -/
def atTables (enabled : ChannelMask) (b : β) : Rig (Traced β) where
  controller :=
    { ((Controller.powerOn .standard).setChannel 1
        { Channel.powerOn with
          control := .ofByte 0x01, port := 0x21, bank := 0x7E, address := 0x2FFC }).setChannel 3
        { Channel.powerOn with
          control := .ofByte 0x80, port := 0x39, bank := 0x7E, address := 0x4000 } with
      enabled := enabled }
  buses := ⟨b, false, []⟩
  cycles := 0

/-- The rig after a frame has begun and `n` lines of the enabled channels have been run. -/
def afterLines [Buses β] (enabled : ChannelMask) (b : β) : Nat → Rig (Traced β)
  | 0 => (atTables enabled b).beginFrame
  | n + 1 => ((afterLines enabled b n).runLine enabled).2

/-- The first three lines, each beside the rig it is run on. -/
def threeLines [Buses β] (enabled : ChannelMask) (b : β) :
    List (Rig (Traced β) × ChannelMask) :=
  [(afterLines enabled b 0, enabled), (afterLines enabled b 1, enabled),
    (afterLines enabled b 2, enabled)]

theorem lineRun_threeLines [Buses β] (good : β → Prop) (enabled : ChannelMask) (b : β) :
    LineRun good 1 (atTables enabled b).beginFrame (threeLines enabled b)
      (afterLines enabled b 3) :=
  .line _ (.line _ (.line _ (.done _)))

/-- The last of the lines that channel 1 is given. -/
theorem threeLines_third [Buses β] {enabled : ChannelMask} (h : 1 ∈ enabled) (b : β) :
    ((threeLines enabled b).filter fun call => (1 : ChannelId) ∈ call.2)[2]? =
      some (afterLines enabled b 2, enabled) := by
  simp [threeLines, h]

end

theorem laid_twoEntries {β : Type} {M : Address → Option UInt8} {enabled : ChannelMask} {b : β}
    (h : Holds M 0x7E 0x2FFC tableBytes) :
    Laid M ((atTables enabled b).channel 1) ((atTables enabled b).channel 1).address twoEntries :=
  ⟨h 0 _ rfl, (h.drop 1).take 2, h 3 _ rfl, (h.drop 4).take 2, h 6 _ rfl⟩

section

attribute [local instance] Recorder.plain

/-- Channel 1 alone on a recorder, and beside channel 3 on the board of a console: in both places
the third line writes the unit of the second entry, and is the last. -/
theorem twoEntries_play_last :
    let alone := ChannelMask.single 1
    let both := alone.insert 3
    let recorder : Recorder := { Recorder.blank false with memory := tableMemory }
    let board : Board := { Board.powerOn with memory := tableMemory }
    ((afterLines alone recorder 2).lineWrites alone 1 = [(0x2121, 0xCC), (0x2122, 0xDD)] ∧
        (1 ∈ ((afterLines alone recorder 2).runLine alone).1 ↔ 2 + 1 < totalLines twoEntries)) ∧
      (afterLines both board 2).lineWrites both 1 = [(0x2121, 0xCC), (0x2122, 0xDD)] ∧
        (1 ∈ ((afterLines both board 2).runLine both).1 ↔ 2 + 1 < totalLines twoEntries) := by
  intro alone both recorder board
  have hline : (expansion twoEntries)[2]? = some [0xCC, 0xDD] := by decide
  constructor
  · have hheld : Holds (fun a => some (tableMemory.get a.cell)) 0x7E 0x2FFC tableBytes :=
      Holds.of_forall (by decide +kernel)
    have hspares : ∀ call ∈ threeLines alone recorder, ∀ j ∈ call.2, j ≠ 1 →
        (call.1.channel j).Spares Recorder.clearance := by
      intro call hcall j hj hne
      simp only [threeLines, List.mem_cons, List.not_mem_nil, or_false] at hcall
      rcases hcall with rfl | rfl | rfl <;> exact absurd (ChannelMask.mem_single.mp hj).symm hne
    have hplayed := lineRun_plays_expansion (Recorder.steadyBytes tableMemory)
      (r := atTables alone recorder) (i := 1) rfl (by decide) rfl (fun _ _ => trivial)
      (laid_twoEntries hheld) (lineRun_threeLines _ alone recorder) hspares
      (threeLines_third (by decide) recorder) hline
    exact ⟨hplayed.1, hplayed.2.1⟩
  · have hheld : Holds (Board.shown tableCells tableMemory) 0x7E 0x2FFC tableBytes :=
      Holds.of_forall (by decide +kernel)
    have hspares : ∀ call ∈ threeLines both board, ∀ j ∈ call.2, j ≠ 1 →
        (call.1.channel j).Spares (Board.clearance tableCells) := by
      decide +kernel
    have hplayed := lineRun_plays_expansion (Board.steadyBytes tableCells tableMemory)
      (r := atTables both board) (i := 1) (fun _ _ => rfl) (by decide) rfl (by decide +kernel)
      (laid_twoEntries hheld) (lineRun_threeLines _ both board) hspares
      (threeLines_third (by decide) board) hline
    exact ⟨hplayed.1, hplayed.2.1⟩

end

end DmaController
