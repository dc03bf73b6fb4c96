import DmaController.Proofs.Console.Reached
import DmaController.Proofs.Console.Timetable

/-! # Idling in parts

The events of the beam come in turn however late they are, so a line is over after three of them at
most, whatever synchronisation costs and wherever the console has stopped.  Idling for lines
therefore stops exactly behind the last of them, which is where idling for more lines takes over
(`Console.runLines_runLines`).  The parts of the beam agree with each other in all consoles that are
reached (`Console.Reached.schedule_consistent`), so the next frame begins behind the lines that are
left of the one at hand (`Console.runFrame_eq`). -/

namespace DmaController

/-! ### The beam of consoles that are reached -/

namespace Host

variable {β : Type} [Buses β]

theorem consistent_runChannel {h : Host Beam β} (hb : h.schedule.Consistent) (i : ChannelId) :
    (h.runChannel i).2.schedule.Consistent := by
  have hpass : ∀ e : Host Beam β, e.schedule.Consistent →
      (e.passByte (h.prepare i).1.id).2.schedule.Consistent := fun e he =>
    settleWithin_induction (P := fun e : Host Beam β => e.schedule.Consistent)
      (fun e he => Beam.schedule_fire e ▸ he.passed) settleLimit (h := e.spend slowAccess) he
  have hmoved : (moveBytes (h.prepare i).1 (h.rig.channel i).length (h.prepare i).2.1
      (h.prepare i).2.2).2.schedule.Consistent :=
    moveBytes_induction (P := fun e : Host Beam β => e.schedule.Consistent) (fun _ _ he => he)
      hpass (h.rig.channel i).length (h.schedule_prepare i ▸ hb)
  rw [runChannel_eq]
  exact (alike_conclude _ _ _).consistent hmoved

end Host

namespace Console

variable {m : Console}

theorem consistent_write (hb : m.schedule.Consistent) (a : Address) (v : UInt8) :
    (m.write a v).schedule.Consistent := by
  rcases m.write_cases a v with h | h | ⟨-, h⟩ | h | h <;> rw [h]
  case inl =>
    exact Host.startChannels_induction (P := fun e : Console => e.schedule.Consistent)
      (fun i he => Host.consistent_runChannel he i) ⟨v⟩ hb hb
  all_goals exact hb

end Console

theorem Operation.consistent_run (op : Operation) {m : Console} (hb : m.schedule.Consistent) :
    (op.run m).schedule.Consistent := by
  cases op with
  | write a v => exact Console.consistent_write hb a v
  | transfer i => exact Host.consistent_runChannel hb i
  | lines n =>
      obtain ⟨es, hlines⟩ := m.lines_runLines n
      exact (hlines.steps.consistent hb).2
  | frame =>
      obtain ⟨es, hlines⟩ := Console.lines_runFrame hb
      exact (hlines.steps.consistent hb).2
  | load a bytes => exact hb
  | reset => exact hb

namespace Console

/-- The parts of the beam agree in all states that are reached. -/
theorem Reached.schedule_consistent {m : Console} (h : m.Reached) : m.schedule.Consistent := by
  induction h with
  | powerOn settings => exact Beam.consistent_powerOn
  | run op _ ih => exact op.consistent_run ih
  | adjust _ _ ih => exact ih
  | hold _ _ ih => exact ih
  | trace _ _ ih => exact ih
  | takeTrace _ ih => exact ih

/-! ### Parts put together -/

variable {m : Console}

/-- Lines that are idled for after lines are more lines. -/
theorem runLines_runLines (m : Console) (n₁ n₂ : Nat) :
    (m.runLines n₁).runLines n₂ = m.runLines (n₁ + n₂) := by
  obtain ⟨es₁, hfirst⟩ := m.lines_runLines n₁
  obtain ⟨es₂, hrest⟩ := (m.runLines n₁).lines_runLines n₂
  have hmiddle := hfirst.next
  have hlast := hrest.next
  have hidles : Idles (fun e => decide (m.schedule.linesRun + (n₁ + n₂) ≤ e.schedule.linesRun)) m
      (es₁ ++ es₂) ((m.runLines n₁).runLines n₂) := by
    refine (hfirst.steps.trans hrest.steps).idles
      (List.forall_mem_append.mpr ⟨fun e he => ?_, fun e he => ?_⟩) (decide_eq_true (by omega))
    · have hbefore := hfirst.before e he
      exact decide_eq_false (by omega)
    · have hbefore := hrest.before e he
      exact decide_eq_false (by omega)
  have hlength : (es₁ ++ es₂).length ≤ eventsPerLine * (n₁ + n₂) := by
    rw [List.length_append, Nat.mul_add]
    exact Nat.add_le_add hfirst.length_le hrest.length_le
  exact (hidles.idleUntil hlength).symm

/-- To idle to the next frame is to idle for the lines that are left of this one. -/
theorem runFrame_eq (hb : m.schedule.Consistent) :
    m.runFrame = m.runLines (Beam.linesPerFrame - m.schedule.line) := by
  obtain ⟨es, m', hlines⟩ := exists_lines (Beam.linesPerFrame - m.schedule.line) m
  have hlength : es.length ≤ eventsPerLine * Beam.linesPerFrame :=
    Nat.le_trans hlines.length_le (Nat.mul_le_mul_left _ (Nat.sub_le _ _))
  have hframe : m.runFrame = m' := (hlines.idles_frame hb).1.idleUntil hlength
  have hlast : m.runLines (Beam.linesPerFrame - m.schedule.line) = m' :=
    hlines.idles.idleUntil hlines.length_le
  rw [hframe, hlast]

end Console

/-- On every console that is reached, whatever its settings, idling for lines and idling to the next
frame come to the console at which their loops stop.  Lines idled for one after the other are idled
for at once, with the same console behind them in all its parts; and idling to the next frame leads
to the very console that idling for what is left of the 262 lines leads to. -/
theorem idling_in_parts {m : Console} (hm : m.Reached) :
    (∀ n, ∃ es, Console.Idles (fun e => m.schedule.linesRun + n ≤ e.schedule.linesRun) m es
        (m.runLines n)) ∧
      (∃ es, Console.Idles (fun e => e.schedule.frame ≠ m.schedule.frame) m es m.runFrame) ∧
      (∀ n₁ n₂, (m.runLines n₁).runLines n₂ = m.runLines (n₁ + n₂)) ∧
      m.schedule.line < 262 ∧ m.runFrame = m.runLines (262 - m.schedule.line) := by
  have hb := hm.schedule_consistent
  refine ⟨fun n => ?_, ?_, m.runLines_runLines, hb.line_lt, Console.runFrame_eq hb⟩
  · obtain ⟨es, hlines⟩ := m.lines_runLines n
    exact ⟨es, hlines.idles⟩
  · obtain ⟨es, hlines⟩ := Console.lines_runFrame hb
    exact ⟨es, (hlines.idles_frame hb).1⟩

/-- Where synchronisation takes 3000 cycles, a console has come to line 1 with the event there long
due; from there it idles for lines, and for the rest of the frame, in parts. -/
theorem overdueLine_in_parts :
    let m := (Console.powerOn { Settings.standard with syncDelay := 3000 }).after
      [.load 0xFFFFFF [0x83], .write 0x420C 0x01, .lines 1]
    m.Reached ∧ (m.schedule.line = 1 ∧ m.schedule.position = 1104 ∧ m.rig.cycles = 4724) ∧
      (∀ n, ∃ es, Console.Idles (fun e => m.schedule.linesRun + n ≤ e.schedule.linesRun) m es
        (m.runLines n)) ∧
      (∃ es, Console.Idles (fun e => e.schedule.frame ≠ m.schedule.frame) m es m.runFrame) ∧
      (∀ n₁ n₂, (m.runLines n₁).runLines n₂ = m.runLines (n₁ + n₂)) ∧
      m.schedule.line < 262 ∧ m.runFrame = m.runLines (262 - m.schedule.line) := by
  intro m
  have hm : m.Reached := (Console.Reached.powerOn _).runAll
    [.load 0xFFFFFF [0x83], .write 0x420C 0x01, .lines 1]
  exact ⟨hm, by decide +kernel, idling_in_parts hm⟩

end DmaController
