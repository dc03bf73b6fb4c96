import DmaController.Proofs.Console.Operations
import DmaController.Proofs.Console.Pace

/-! # Idling from event to event

A console that idles goes from one event to the next until it is told to stop.  `Console.Steps` are
the consoles it goes through, and `Console.Idles` is the whole loop, without a bound on the number
of its turns.  From any console, the events of one line, three at most, lead to the next line
(`Console.exists_line`), and where no event was due at first, none is due then.  So idling for
lines, or to the next frame, comes to its end with at most three events on any line
(`Console.idles_runLines`, `Console.idles_runFrame`). -/

namespace DmaController

namespace Console

/-- Stepping through these consoles, from event to event, leads from one to another. -/
inductive Steps : Console → List Console → Console → Prop
  | done (m : Console) : Steps m [] m
  | step {m m' : Console} {es : List Console} (rest : Steps m.stepEvent es m') :
      Steps m (m :: es) m'

/-- The console goes through these, from event to event, and stops at the first one at which `stop`
holds. -/
inductive Idles (stop : Console → Bool) : Console → List Console → Console → Prop
  | done {m : Console} (stops : stop m = true) : Idles stop m [] m
  | step {m m' : Console} {es : List Console} (goesOn : stop m = false)
      (rest : Idles stop m.stepEvent es m') : Idles stop m (m :: es) m'

theorem Steps.trans {m m' m'' : Console} {es es' : List Console} (h : m.Steps es m')
    (h' : m'.Steps es' m'') : m.Steps (es ++ es') m'' := by
  induction h with
  | done m => exact h'
  | step _ ih => exact .step (ih h')

theorem Steps.idles {stop : Console → Bool} {m m' : Console} {es : List Console}
    (h : m.Steps es m') (hgo : ∀ e ∈ es, stop e = false) (hstop : stop m' = true) :
    Idles stop m es m' := by
  induction h with
  | done m => exact .done hstop
  | step _ ih =>
      obtain ⟨hfirst, hrest⟩ := List.forall_mem_cons.mp hgo
      exact .step hfirst (ih hrest hstop)

/-- A limit that is not reached makes no difference. -/
theorem Idles.idleUntil {stop : Console → Bool} {m m' : Console} {es : List Console}
    (h : Idles stop m es m') {limit : Nat} (hl : es.length ≤ limit) :
    m.idleUntil stop limit = m' := by
  induction h generalizing limit with
  | done hstop =>
      cases limit with
      | zero => rfl
      | succ limit => rw [Console.idleUntil, hstop, if_pos rfl]
  | step hgo _ ih =>
      cases limit with
      | zero => cases hl
      | succ limit =>
          rw [Console.idleUntil, hgo, if_neg Bool.false_ne_true]
          exact ih (Nat.le_of_succ_le_succ hl)

/-! ### One event -/

variable {m : Console}

/-- Idling to the next event makes it due. -/
theorem atEvent_due (hp : m.Paced) : m.atEvent.Paced ∧ m.atEvent.Due ∧
    m.atEvent.schedule = m.schedule ∧
    (m.Ahead 0 → m.atEvent.rig.cycles = m.schedule.position) := by
  by_cases hdue : m.Due
  · have hatEvent : m.atEvent = m := by
      unfold Host.Due at hdue
      unfold atEvent
      rw [if_neg (by omega)]
    rw [hatEvent]
    refine ⟨hp, hdue, rfl, fun ha => ?_⟩
    have hlt := ha.lt
    unfold Host.Due at hdue
    omega
  · have ha := hp.ahead hdue
    have hlt := ha.lt
    have hatEvent : m.atEvent = m.spend (m.schedule.position - m.rig.cycles) := by
      unfold atEvent
      rw [if_pos (by omega)]
    have hcycles : (m.spend (m.schedule.position - m.rig.cycles)).rig.cycles =
        m.schedule.position := by
      show m.rig.cycles + (m.schedule.position - m.rig.cycles) = _
      omega
    rw [hatEvent]
    have hreached : (m.spend (m.schedule.position - m.rig.cycles)).Ahead 1 := by
      have hnonneg := ha.nonneg
      refine ⟨ha.consistent, by omega, ?_, ha.sync⟩
      rw [hcycles]
      show m.schedule.position < m.schedule.position + 1
      omega
    exact ⟨hreached.paced (by decide), Int.le_of_eq hcycles.symm, rfl, fun _ => hcycles⟩

theorem paced_stepEvent (hp : m.Paced) : m.stepEvent.Paced := by
  obtain ⟨hp', hdue, -⟩ := atEvent_due hp
  exact hp'.paced_fire hdue

theorem schedule_stepEvent (m : Console) : m.stepEvent.schedule = m.schedule.passed := by
  have hwaited : m.atEvent.schedule = m.schedule := by
    unfold atEvent
    dsimp only
    split <;> rfl
  rw [stepEvent_eq, Beam.schedule_fire, hwaited]

theorem Steps.consistent {m' : Console} {es : List Console} (h : m.Steps es m')
    (hb : m.schedule.Consistent) :
    (∀ e ∈ es, e.schedule.Consistent) ∧ m'.schedule.Consistent := by
  induction h with
  | done m => exact ⟨List.forall_mem_nil _, hb⟩
  | @step m m' es _ ih =>
      obtain ⟨hrest, hlast⟩ := ih (schedule_stepEvent m ▸ hb.passed)
      exact ⟨List.forall_mem_cons.mpr ⟨hb, hrest⟩, hlast⟩

/-- The end of a line that comes on time, or behind a line that was sent, leaves no event due. -/
theorem ahead_endLine (hp : m.Paced) (hevent : m.schedule.event = .endLine)
    (htime : m.schedule.line ≤ Beam.lastVisibleLine ∨ m.Ahead 0) : m.stepEvent.Ahead 0 := by
  obtain ⟨hp', hdue, hschedule, hcycles⟩ := atEvent_due hp
  rcases (hp'.fire_endLine (by rw [hschedule, hevent]) hdue).2 with ha | ⟨-, hlast, hlate⟩
  · exact ha
  · rw [hschedule] at hlast hlate
    rcases htime with hvisible | ha
    · omega
    · have := hcycles ha
      omega

/-! ### One line -/

/-- The events of a line, or of what is left of it, lead to the next one. -/
structure Line (m : Console) (es : List Console) (m' : Console) : Prop where
  steps : m.Steps es m'
  length_le : es.length ≤ eventsPerLine
  on_line : ∀ e ∈ es, e.schedule.linesRun = m.schedule.linesRun
  next : m'.schedule.linesRun = m.schedule.linesRun + 1
  /-- Where the count keeps pace, and behind a line that was sent or with no event due, none is due
  on the next line. -/
  ahead : m.Paced → m.schedule.line ≤ Beam.lastVisibleLine ∨ m.Ahead 0 → m'.Ahead 0

theorem linesRun_nextLine (b : Beam) : b.nextLine.linesRun = b.linesRun + 1 := by
  obtain ⟨event, position, hnext, -⟩ := b.nextLine_eq
  rw [hnext]

/-- The last event of a line. -/
theorem line_of_endLine (hevent : m.schedule.event = .endLine) : m.Line [m] m.stepEvent where
  steps := .step (.done _)
  length_le := by simp [eventsPerLine]
  on_line e he := by rw [List.mem_singleton.mp he]
  next := by rw [schedule_stepEvent, Beam.passed, hevent, linesRun_nextLine]
  ahead hp htime := ahead_endLine hp hevent htime

/-- An event in a line comes before the others. -/
theorem Line.cons {es : List Console} {m' : Console} (h : m.stepEvent.Line es m')
    (hlength : es.length ≤ 2)
    (hline : m.stepEvent.schedule.linesRun = m.schedule.linesRun)
    (hvisible : m.Paced → m.stepEvent.schedule.line ≤ Beam.lastVisibleLine) :
    m.Line (m :: es) m' where
  steps := .step h.steps
  length_le := Nat.succ_le_succ hlength
  on_line := List.forall_mem_cons.mpr ⟨rfl, fun e he => (h.on_line e he).trans hline⟩
  next := by rw [h.next, hline]
  ahead hp _ := h.ahead (paced_stepEvent hp) (.inl (hvisible hp))

/-- The two events from the run of a line on. -/
theorem line_of_runLine (hevent : m.schedule.event = .runLine) :
    m.Line [m, m.stepEvent] m.stepEvent.stepEvent := by
  have hschedule : m.stepEvent.schedule = m.schedule.await .endLine Beam.cyclesPerLine := by
    rw [schedule_stepEvent, Beam.passed, hevent]
  refine (line_of_endLine ?_).cons (by simp) ?_ fun hp => ?_
  · rw [hschedule]
    rfl
  · rw [hschedule]
    rfl
  · rw [hschedule]
    exact (hp.runLine hevent).1

/-- From every console a line leads to the next one. -/
theorem exists_line (m : Console) : ∃ es m', m.Line es m' := by
  cases hevent : m.schedule.event with
  | beginFrame =>
      have hschedule : m.stepEvent.schedule = m.schedule.await .runLine Beam.runLinePosition := by
        rw [schedule_stepEvent, Beam.passed, hevent]
      have hline := line_of_runLine (m := m.stepEvent) (by rw [hschedule]; rfl)
      refine ⟨_, _, hline.cons (by simp) (by rw [hschedule]; rfl) fun hp => ?_⟩
      rw [hschedule]
      show m.schedule.line ≤ Beam.lastVisibleLine
      rw [(hp.beginFrame hevent).1]
      exact Nat.zero_le _
  | runLine => exact ⟨_, _, line_of_runLine hevent⟩
  | endLine => exact ⟨_, _, line_of_endLine hevent⟩

/-! ### Lines -/

/-- The events of `n` lines lead on by `n` lines. -/
structure Lines (n : Nat) (m : Console) (es : List Console) (m' : Console) : Prop where
  steps : m.Steps es m'
  length_le : es.length ≤ eventsPerLine * n
  from_line : ∀ e ∈ es, m.schedule.linesRun ≤ e.schedule.linesRun
  before : ∀ e ∈ es, e.schedule.linesRun < m.schedule.linesRun + n
  per_line : ∀ line, es.countP (fun e => e.schedule.linesRun == line) ≤ eventsPerLine
  next : m'.schedule.linesRun = m.schedule.linesRun + n
  ahead : m.Ahead 0 → m'.Ahead 0

/-- All events of a line, and none of later ones, are on the line. -/
theorem Line.countP_append {first es : List Console} {m₁ m' : Console} {n : Nat}
    (hline : m.Line first m₁) (hlines : Lines n m₁ es m') (line : Nat) :
    (first ++ es).countP (fun e => e.schedule.linesRun == line) ≤ eventsPerLine := by
  have hnext := hline.next
  rw [List.countP_append]
  by_cases hhere : line = m.schedule.linesRun
  · have hrest : es.countP (fun e => e.schedule.linesRun == line) = 0 := by
      rw [List.countP_eq_zero]
      intro e he
      have := hlines.from_line e he
      rw [beq_iff_eq]
      omega
    rw [hrest, Nat.add_zero]
    exact Nat.le_trans List.countP_le_length hline.length_le
  · have hfirst : first.countP (fun e => e.schedule.linesRun == line) = 0 := by
      rw [List.countP_eq_zero]
      intro e he
      rw [hline.on_line e he, beq_iff_eq]
      omega
    rw [hfirst, Nat.zero_add]
    exact hlines.per_line line

/-- A line and `n` more. -/
theorem Line.lines {first es : List Console} {m₁ m' : Console} {n : Nat}
    (hline : m.Line first m₁) (hlines : Lines n m₁ es m') : Lines (n + 1) m (first ++ es) m' := by
  have hnext := hline.next
  refine ⟨hline.steps.trans hlines.steps, ?_,
    List.forall_mem_append.mpr ⟨fun e he => ?_, fun e he => ?_⟩,
    List.forall_mem_append.mpr ⟨fun e he => ?_, fun e he => ?_⟩, hline.countP_append hlines, ?_,
    fun ha => hlines.ahead (hline.ahead (ha.paced (by decide)) (.inr ha))⟩
  · have hfirst := hline.length_le
    have hrest := hlines.length_le
    rw [List.length_append, Nat.mul_succ]
    omega
  · exact Nat.le_of_eq (hline.on_line e he).symm
  · have := hlines.from_line e he
    omega
  · rw [hline.on_line e he]
    omega
  · have := hlines.before e he
    omega
  · rw [hlines.next, hnext]
    omega

theorem exists_lines (n : Nat) (m : Console) : ∃ es m', Lines n m es m' := by
  induction n generalizing m with
  | zero =>
      exact ⟨[], m, .done m, Nat.zero_le _, List.forall_mem_nil _, List.forall_mem_nil _,
        fun _ => Nat.zero_le _, rfl, fun ha => ha⟩
  | succ n ih =>
      obtain ⟨first, m₁, hline⟩ := exists_line m
      obtain ⟨es, m', hlines⟩ := ih m₁
      exact ⟨first ++ es, m', hline.lines hlines⟩

/-- Idling for `n` lines goes on until the last of them has ended. -/
theorem Lines.idles {n : Nat} {es : List Console} {m' : Console} (h : Lines n m es m') :
    Idles (fun e => decide (m.schedule.linesRun + n ≤ e.schedule.linesRun)) m es m' :=
  h.steps.idles (fun e he => decide_eq_false (Nat.not_le_of_lt (h.before e he)))
    (decide_eq_true (Nat.le_of_eq h.next.symm))

theorem lines_runLines (m : Console) (n : Nat) : ∃ es, Lines n m es (m.runLines n) := by
  obtain ⟨es, m', hlines⟩ := exists_lines n m
  have hlast : m.runLines n = m' := hlines.idles.idleUntil hlines.length_le
  exact ⟨es, hlast ▸ hlines⟩

/-- Idling for lines comes to its end behind the last of them. -/
theorem idles_runLines (ha : m.Ahead 0) (n : Nat) :
    ∃ es, Idles (fun m' => decide (m.schedule.linesRun + n ≤ m'.schedule.linesRun)) m es
        (m.runLines n) ∧
      es.length ≤ eventsPerLine * n ∧
      (∀ line, es.countP (fun e => e.schedule.linesRun == line) ≤ eventsPerLine) ∧
      (m.runLines n).schedule.linesRun = m.schedule.linesRun + n ∧ (m.runLines n).Ahead 0 := by
  obtain ⟨es, hlines⟩ := lines_runLines m n
  exact ⟨es, hlines.idles, hlines.length_le, hlines.per_line, hlines.next, hlines.ahead ha⟩

/-- The frame can be told from the lines. -/
theorem frame_eq {b : Beam} (h : b.Consistent) : b.frame = b.linesRun / Beam.linesPerFrame := by
  have hline := h.line_lt
  rw [h.linesRun_eq, Nat.mul_add_div (by decide), Nat.div_eq_of_lt hline, Nat.add_zero]

/-- The next frame begins behind the lines that are left of this one, and not before. -/
theorem Lines.idles_frame {es : List Console} {m' : Console}
    (h : Lines (Beam.linesPerFrame - m.schedule.line) m es m') (hb : m.schedule.Consistent) :
    Idles (fun e => decide (e.schedule.frame ≠ m.schedule.frame)) m es m' ∧
      m'.schedule.frame = m.schedule.frame + 1 := by
  obtain ⟨hevents, hlast⟩ := h.steps.consistent hb
  have hline := hb.line_lt
  have hrun := hb.linesRun_eq
  have hnext := h.next
  have hframe : m'.schedule.frame = m.schedule.frame + 1 := by
    rw [frame_eq hlast, hnext, hrun]
    unfold Beam.linesPerFrame at *
    omega
  refine ⟨h.steps.idles (fun e he => ?_) (decide_eq_true (by omega)), hframe⟩
  have hfrom := h.from_line e he
  have hbefore := h.before e he
  have hsame : e.schedule.frame = m.schedule.frame := by
    rw [frame_eq (hevents e he)]
    unfold Beam.linesPerFrame at *
    omega
  exact decide_eq_false (not_not_intro hsame)

theorem lines_runFrame (hb : m.schedule.Consistent) :
    ∃ es, Lines (Beam.linesPerFrame - m.schedule.line) m es m.runFrame := by
  obtain ⟨es, m', hlines⟩ := exists_lines (Beam.linesPerFrame - m.schedule.line) m
  have hlength : es.length ≤ eventsPerLine * Beam.linesPerFrame :=
    Nat.le_trans hlines.length_le (Nat.mul_le_mul_left _ (Nat.sub_le _ _))
  have hlast : m.runFrame = m' := (hlines.idles_frame hb).1.idleUntil hlength
  exact ⟨es, hlast ▸ hlines⟩

/-- Idling to the next frame comes to its end when that begins. -/
theorem idles_runFrame (ha : m.Ahead 0) :
    ∃ es, Idles (fun m' => decide (m'.schedule.frame ≠ m.schedule.frame)) m es m.runFrame ∧
      es.length ≤ eventsPerLine * Beam.linesPerFrame ∧
      (∀ line, es.countP (fun e => e.schedule.linesRun == line) ≤ eventsPerLine) ∧
      m.runFrame.schedule.frame = m.schedule.frame + 1 ∧ m.runFrame.Ahead 0 := by
  obtain ⟨es, hlines⟩ := lines_runFrame ha.consistent
  obtain ⟨hidles, hframe⟩ := hlines.idles_frame ha.consistent
  exact ⟨es, hidles,
    Nat.le_trans hlines.length_le (Nat.mul_le_mul_left _ (Nat.sub_le _ _)), hlines.per_line,
    hframe, hlines.ahead ha⟩

end Console

end DmaController
