import DmaController.Proofs.Console.Operations
import DmaController.Proofs.Transfer.Collision
import DmaController.Proofs.Transfer.Nested

/-! # Channels that have ended

On a console, lines are asked for the active channels, between the operations of the processor as
well as inside its general transfers.  So a run of operations is a path (`Console.path_run`), and as
it starts out consistent, it is consistent at every stop, and a channel whose table has ended has no
turn and fetches nothing before the next frame begins, whatever is enabled in the meantime
(`channels_consistent`). -/

namespace DmaController

/-- The stop at which the beam carries out its event. -/
def Beam.stops (h : Host Beam Board) : List (Stop Board) :=
  match h.schedule.event with
  | .beginFrame => [(h.rig, some .frame)]
  | .runLine =>
    let active := h.rig.controller.active
    [(h.rig, if active = ∅ then none else some (.line active))]
  | .endLine => [(h.rig, none)]

namespace Console

/-- The stops while the console idles. -/
def idleStops (stop : Console → Bool) : Nat → Console → List (Stop Board)
  | 0, _ => []
  | limit + 1, m =>
      if stop m then [] else Beam.stops m.atEvent ++ idleStops stop limit m.stepEvent

/-- The stops of a write of the processor. -/
def writeStops (m : Console) (a : Address) (v : UInt8) : List (Stop Board) :=
  if isControllerAddress a then Host.writeStops Beam.stops m (Address.offset a) v
  else [(m.rig, none)]

end Console

/-- The stops of an operation. -/
def Operation.path : Operation → Console → List (Stop Board)
  | write a v, m => m.writeStops a v
  | transfer i, m => Host.transferStops Beam.stops m i
  | lines n, m =>
      let target := m.schedule.linesRun + n
      m.idleStops (fun m => decide (target ≤ m.schedule.linesRun)) (Console.eventsPerLine * n)
  | frame, m =>
      let frame := m.schedule.frame
      m.idleStops (fun m => decide (m.schedule.frame ≠ frame))
        (Console.eventsPerLine * Beam.linesPerFrame)
  | load _ _, m => [(m.rig, none)]
  | reset, m => [(m.rig, none)]

/-- The stops of operations carried out one after the other. -/
def Console.path : Console → List Operation → List (Stop Board)
  | _, [] => []
  | m, op :: ops => op.path m ++ (op.run m).path ops

section

variable {R : Rig Board → List (Stop Board) → Rig Board → Prop}
  (hR : Rig.Along Rig.AsksActive R)

include hR

theorem Beam.along_fire (h : Host Beam Board) : R h.rig (Beam.stops h) (Beam.fire h).rig := by
  unfold Beam.stops Beam.fire
  cases h.schedule.event with
  | beginFrame => exact hR.request (q := .frame) trivial
  | runLine =>
      dsimp only
      split
      · exact hR.stop h.rig
      · exact hR.request (q := .line _) rfl
  | endLine =>
      have hended : h.rig.Aside (h.rig.spend (-cyclesPerLine)) :=
        ⟨⟨rfl, rfl, rfl⟩, fun _ => rfl, fun _ => rfl⟩
      exact hR.stopped (hR.aside hended)

namespace Console

theorem along_idleUntil (stop : Console → Bool) (limit : Nat) (m : Console) :
    R m.rig (m.idleStops stop limit) (m.idleUntil stop limit).rig := by
  induction limit generalizing m with
  | zero => exact hR.done m.rig
  | succ limit ih =>
      unfold idleStops idleUntil
      split
      · exact hR.done m.rig
      · have hwaited : m.rig.Aside m.atEvent.rig := by
          unfold atEvent
          dsimp only
          split <;> exact ⟨⟨rfl, rfl, rfl⟩, fun _ => rfl, fun _ => rfl⟩
        exact hR.behind hwaited (hR.trans (Beam.along_fire hR m.atEvent) (ih m.stepEvent))

theorem along_write (m : Console) (a : Address) (v : UInt8) :
    R m.rig (m.writeStops a v) (m.write a v).rig := by
  unfold writeStops write
  split
  · exact Host.along_writeRegister hR trivial fun _ _ e _ => Beam.along_fire hR e
  · exact hR.stopped (hR.aside ⟨⟨rfl, rfl, rfl⟩, fun _ => rfl, fun _ => rfl⟩)

end Console

theorem Operation.along_run (op : Operation) (m : Console) :
    R m.rig (op.path m) (op.run m).rig := by
  cases op with
  | write a v => exact m.along_write hR a v
  | transfer i => exact Host.along_runChannel hR fun e _ => Beam.along_fire hR e
  | lines n => exact m.along_idleUntil hR _ _
  | frame => exact m.along_idleUntil hR _ _
  | load a bytes =>
      exact hR.stopped (hR.aside ⟨⟨rfl, rfl, rfl⟩, fun _ => rfl, fun _ => rfl⟩)
  | reset => exact hR.stopped (hR.reset m.rig)

/-- What goes along with all work, goes along with every row of operations. -/
theorem Console.along_run (ops : List Operation) (m : Console) :
    R m.rig (m.path ops) (ops.foldl (fun m op => op.run m) m).rig := by
  induction ops generalizing m with
  | nil => exact hR.done m.rig
  | cons op ops ih => exact hR.trans (op.along_run hR m) (ih (op.run m))

end

theorem Console.path_run (ops : List Operation) (m : Console) :
    Rig.Path Rig.AsksActive m.rig (m.path ops) (ops.foldl (fun m op => op.run m) m).rig :=
  Console.along_run (Rig.Path.along _) ops m

theorem consistent_powerOn {β : Type} {r : Rig β} {settings : Settings}
    (hr : r.controller = .powerOn settings) : r.Consistent := by
  rw [Rig.Consistent, hr]
  show (∅ : ChannelMask) = ∅ \ ∅
  decide

/-- Whatever is done to a controller from power-on, in any order and nesting, the active channels
are those enabled and not ended whenever no line transfer is in progress.  So on a console, after a
request at which the table of a channel has ended, the lines up to the next frame give the channel
no turn and leave it alone. -/
theorem channels_consistent (settings : Settings) :
    (∀ {κ β : Type} [Buses β] [Schedule κ β] {h h' : Host κ β} {stops : List (Stop β)},
      h.rig.controller = .powerOn settings → Host.Runs h stops h' →
        ∀ stop ∈ stops, stop.1.Consistent) ∧
    ∀ (ops : List Operation) {s t : Rig Board} {q : LineRequest} {between : List (Stop Board)}
      {m : ChannelMask} {i : ChannelId},
      (s, some q) :: (between ++ [(t, some (.line m))]) <:+: (Console.powerOn settings).path ops →
      (∀ stop ∈ between, stop.2 ≠ some .frame) →
      i ∈ (s.serve q).2.controller.ended →
        i ∉ m ∧ (∀ turn ∈ t.turns m, turn.2 ≠ i) ∧ (t.runLine m).2.channel i = t.channel i := by
  constructor
  · intro κ β _ _ h h' stops hpower hruns
    exact (hruns.path.consistent (consistent_powerOn hpower)).1
  · rintro ops s t q between m i ⟨before, after, hpath⟩ hframes hi
    have hrun := Console.path_run ops (Console.powerOn settings)
    rw [← hpath] at hrun
    simp only [List.append_assoc, List.cons_append, List.nil_append] at hrun
    have hout := hrun.ended_stays_out (consistent_powerOn rfl) hi hframes
    refine ⟨hout, ?_, Rig.channel_runLine_of_notMem hout⟩
    rintro turn hturn rfl
    exact hout (Rig.channel_of_mem_turns hturn).1

/-! ### A table that ends -/

/-- The stops of the line that comes next. -/
def LineQueue.stops {β : Type} [Buses β] (h : Host LineQueue β) : List (Stop β) :=
  match h.schedule.lines with
  | [] => [(h.rig, none)]
  | line :: _ =>
    let ran := (h.rig.runLine line.2).2
    [(h.rig, some (.line line.2)), (ran, none), (ran, none)]

theorem LineQueue.runs_fire {β : Type} [Buses β] (h : Host LineQueue β) :
    Host.Runs h (LineQueue.stops h) (Schedule.fire h) := by
  obtain ⟨r, ⟨_ | ⟨line, lines⟩⟩⟩ := h
  · exact .done _
  · have hlast := Host.Runs.done (⟨(r.runLine line.2).2, ⟨lines⟩⟩ : Host LineQueue β)
    refine .line line.2 (.aside ?_ hlast)
    rfl

/-- A console without a beam, with a line on channel 1 to come. -/
def beforeStart : Host LineQueue Board where
  rig := ⟨.powerOn .standard, .powerOn, 0⟩
  schedule := ⟨[(16, .single (channelNumber 1))]⟩

/-- Channel 0 is enabled with a table of one line; behind its end channel 1 is enabled as well. -/
def endingTable : List Operation :=
  [.load 0x7E1000 [0x01, 0xAA, 0x00], .write 0x4300 0x00, .write 0x4301 0x21, .write 0x4302 0x00,
    .write 0x4303 0x10, .write 0x4304 0x7E, .write 0x420C 0x01, .lines 1, .write 0x420C 0x03,
    .lines 1]

/-- Four stops in a row, with a line at both ends and a write of `$420C` in between. -/
theorem exists_of_window {path window : List (Stop Board)} {m n k : ChannelMask}
    {P : Rig Board → Prop} (hwindow : window <:+: path)
    (hasked : window.map Prod.snd =
      [some (.line m), none, some (.enable n), some (.line k)])
    (hfirst : ∀ stop ∈ window.head?, P stop.1) :
    ∃ (s t : Rig Board) (between : List (Stop Board)),
      (s, some (.line m)) :: (between ++ [(t, some (.line k))]) <:+: path ∧
        between.map Prod.snd = [none, some (.enable n)] ∧ P s := by
  obtain ⟨⟨s, _⟩, _, rfl, rfl, h₁⟩ := List.map_eq_cons_iff.mp hasked
  obtain ⟨⟨u, _⟩, _, rfl, rfl, h₂⟩ := List.map_eq_cons_iff.mp h₁
  obtain ⟨⟨v, _⟩, _, rfl, rfl, h₃⟩ := List.map_eq_cons_iff.mp h₂
  obtain ⟨⟨t, _⟩, _, rfl, rfl, h₄⟩ := List.map_eq_cons_iff.mp h₃
  obtain rfl := List.map_eq_nil_iff.mp h₄
  exact ⟨s, t, [(u, none), (v, some (.enable n))], hwindow, rfl, hfirst _ rfl⟩

/-- All channels are enabled, and a frame and a transfer with a line inside it keep the sets
consistent.  On a console, the write that enables channel 0 again does not bring its table back. -/
theorem endingTable_stays_out :
    (∃ stops : List (Stop Board), (beforeStart.rig, some (.enable ⟨0xFF⟩)) ∈ stops ∧
        ∀ stop ∈ stops, stop.1.Consistent) ∧
      ∃ (s t : Rig Board) (between : List (Stop Board)),
        (s, some (.line ⟨1⟩)) :: (between ++ [(t, some (.line ⟨2⟩))]) <:+:
          (Console.powerOn .standard).path endingTable ∧
        between.map Prod.snd = [none, some (.enable ⟨3⟩)] ∧
        0 ∈ (s.serve (.line ⟨1⟩)).2.controller.ended ∧
        (t.runLine ⟨2⟩).2.channel 0 = t.channel 0 := by
  obtain ⟨hnested, hconsole⟩ := channels_consistent .standard
  constructor
  · have hruns : Host.Runs beforeStart _ _ :=
      .write 0x420C 0xFF LineQueue.stops (fun t ht => by cases ht)
        (.frame (.transfer 4 LineQueue.stops (fun e _ => LineQueue.runs_fire e) (.done _)))
    exact ⟨_, List.mem_append_left _ List.mem_cons_self, hnested rfl hruns⟩
  · obtain ⟨s, t, between, hwindow, hbetween, hended⟩ :=
      exists_of_window (P := fun s => 0 ∈ (s.serve (.line ⟨1⟩)).2.controller.ended)
        (m := ⟨1⟩) (n := ⟨3⟩) (k := ⟨2⟩)
        (((List.take_prefix 4 _).isInfix).trans
          (List.drop_suffix 8 ((Console.powerOn .standard).path endingTable)).isInfix)
        (by decide +kernel) (by decide +kernel)
    have hframes : ∀ stop ∈ between, stop.2 ≠ some .frame := by
      intro stop hstop
      have hmem := List.mem_map_of_mem (f := Prod.snd) hstop
      rw [hbetween] at hmem
      rintro hframe
      rw [hframe] at hmem
      simp at hmem
    exact ⟨s, t, between, hwindow, hbetween, hended,
      (hconsole endingTable hwindow hframes hended).2.2⟩

end DmaController
