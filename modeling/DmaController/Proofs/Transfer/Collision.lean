import DmaController.Bench.Recorder
import DmaController.Proofs.LineTransfer.Turns
import DmaController.Proofs.Transfer.Events

/-! # Line transfers inside a general one

Events may run line transfers between the bytes of a general transfer.  Each of them leaves its
channels behind (`ranInside`) for the general transfer to find when all events have had their turn,
and each overwrites what the one before it has left.  `LineWork r ms r'` says that events have led
from `r` to `r'` and that the sets `ms` were left behind on the way, the last one for good
(`LineWork.leaves`).

So a general transfer stops behind a byte if and only if its channel is in the *last* set that the
events after that byte have left (`runChannel_stops_iff`).  A line transfer that does use the
channel is forgotten if another follows at once that does not (`forgotten_collision`). -/

namespace DmaController

/-- From `r` to `r'` events have worked on the rig.  Their line transfers and frames have left the
sets `ms` behind; nothing else that they did has touched the word left for a general transfer. -/
inductive LineWork {β : Type} [Buses β] : Rig β → List ChannelMask → Rig β → Prop
  | done (r : Rig β) : LineWork r [] r
  | aside {r r' r'' : Rig β} {ms : List ChannelMask}
      (inTransfer : r'.controller.activity.inTransfer = r.controller.activity.inTransfer)
      (ranInside : r'.controller.activity.ranInside = r.controller.activity.ranInside)
      (rest : LineWork r' ms r'') : LineWork r ms r''
  | line {r r' : Rig β} {ms : List ChannelMask} (m : ChannelMask)
      (rest : LineWork (r.runLine m).2 ms r') : LineWork r (m :: ms) r'
  | frame {r r' : Rig β} {ms : List ChannelMask} (rest : LineWork r.beginFrame ms r') :
      LineWork r (r.beginFrame.controller.active :: ms) r'

namespace LineWork

variable {β : Type} [Buses β] {r r' r'' : Rig β} {ms ms' : List ChannelMask}

theorem trans (h : LineWork r ms r') (h' : LineWork r' ms' r'') : LineWork r (ms ++ ms') r'' := by
  induction h with
  | done r => exact h'
  | aside hin hran _ ih => exact .aside hin hran (ih h')
  | line m _ ih => exact .line m (ih h')
  | frame _ ih => exact .frame (ih h')

theorem inTransfer (h : LineWork r ms r') :
    r'.controller.activity.inTransfer = r.controller.activity.inTransfer := by
  induction h with
  | done r => rfl
  | aside hin _ _ ih => exact ih.trans hin
  | line m _ ih => exact ih.trans (Rig.inTransfer_runLine _ m)
  | frame _ ih => exact ih.trans (Rig.inTransfer_beginFrame _)

/-- Of all that is left behind inside a general transfer, only the last remains. -/
theorem leaves (h : LineWork r ms r') (hin : r.controller.activity.inTransfer = true) :
    r'.controller.activity.ranInside = ms.getLast?.getD r.controller.activity.ranInside := by
  induction h with
  | done r => rfl
  | aside hin' hran _ ih => rw [ih (hin'.trans hin), hran]
  | @line r r' ms m _ ih =>
      have hm : (r.runLine m).2.controller.activity.ranInside = m := by
        rw [Rig.ranInside_runLine, if_pos hin]
      rw [ih ((r.inTransfer_runLine m).trans hin), hm, List.getLast?_cons, Option.getD_some]
  | @frame r r' ms _ ih =>
      have hin' := r.inTransfer_beginFrame.trans hin
      have hm : r.beginFrame.controller.activity.ranInside = r.beginFrame.controller.active := by
        rw [Rig.ranInside_beginFrame, if_pos hin']
      rw [ih hin', hm, List.getLast?_cons, Option.getD_some]

end LineWork

/-! ### One byte -/

namespace Host

variable {κ β : Type} [Buses β] [Schedule κ β] {note : Host κ β → List ChannelMask}
  (hnote : ∀ h : Host κ β, LineWork h.rig (note h) (Schedule.fire h).rig)

include hnote

theorem lineWork_settleWithin (limit : Nat) (h : Host κ β) :
    LineWork h.rig (settleNotes note limit h) (settleWithin limit h).rig :=
  settleWithin_run note .done LineWork.trans limit fun e _ => hnote e

/-- A byte passes by unless the last set left after it has the channel; either way, nothing of it
is left for the next one. -/
theorem passByte_leaves {h : Host κ β} {i : ChannelId}
    (hin : h.rig.controller.activity.inTransfer = true)
    (hrest : i ∉ h.rig.controller.activity.ranInside) :
    ((h.passByte i).1 = false ↔
      ∃ m, (settleNotes note settleLimit (h.spend slowAccess)).getLast? = some m ∧ i ∈ m) ∧
    (h.passByte i).2.rig.controller.activity.inTransfer = true ∧
    i ∉ (h.passByte i).2.rig.controller.activity.ranInside := by
  have hwork := lineWork_settleWithin hnote settleLimit (h.spend slowAccess)
  generalize settleNotes note settleLimit (h.spend slowAccess) = ms at hwork
  have hleft := hwork.leaves hin
  refine ⟨?_, hwork.inTransfer.trans hin, ChannelMask.not_mem_empty i⟩
  rw [← Bool.not_eq_true, passByte_iff, Decidable.not_not]
  show i ∈ (settleWithin settleLimit _).rig.controller.activity.ranInside ↔ _
  rw [hleft]
  cases hl : ms.getLast? with
  | none => exact ⟨fun hi => absurd hi hrest, fun ⟨_, hm, _⟩ => by cases hm⟩
  | some m => exact ⟨fun hi => ⟨m, rfl, hi⟩, fun ⟨_, hm, hi⟩ => by cases hm; exact hi⟩

/-! ### All bytes -/

omit hnote in
theorem byteNotes_ne_nil {γ : Type} (note : Host κ β → List γ) {t : Transfer} {n : Nat}
    {progress : Progress} {h : Host κ β} (hstop : (moveBytes t n progress h).1 = false) :
    byteNotes note t n progress h ≠ [] := by
  cases n with
  | zero => cases hstop
  | succ n => exact List.cons_ne_nil _ _

/-- The loop over the bytes stops behind byte `k` if and only if the last set left after that byte
has its channel. -/
theorem moveBytes_stops_iff (t : Transfer) (n : Nat) :
    ∀ (progress : Progress) (h : Host κ β) (k : Nat) (ms : List ChannelMask),
      h.rig.controller.activity.inTransfer = true →
      t.id ∉ h.rig.controller.activity.ranInside →
      ((byteNotes note t n progress h).map Prod.snd)[k]? = some ms →
      (((moveBytes t n progress h).1 = false ∧ (byteNotes note t n progress h).length = k + 1) ↔
        ∃ m, ms.getLast? = some m ∧ t.id ∈ m) := by
  induction n with
  | zero =>
      intro progress h k ms _ _ hk
      cases hk
  | succ n ih =>
      intro progress h k ms hin hrest hk
      have hmoved := keeps_moveByte t progress h.rig
      have hin' : (h.byteDone t progress).rig.controller.activity.inTransfer = true :=
        hmoved.inTransfer.trans hin
      have hrest' : t.id ∉ (h.byteDone t progress).rig.controller.activity.ranInside :=
        hmoved.ranInside ▸ hrest
      obtain ⟨hstop, hin₁, hrest₁⟩ := passByte_leaves hnote hin' hrest'
      rw [moveBytes_succ]
      rw [byteNotes] at hk ⊢
      generalize (h.byteDone t progress).passByte t.id = passed at *
      cases hp : passed.1 with
      | false =>
          -- The loop ends here, and this is its last byte.
          rw [hp] at hk hstop
          cases k with
          | zero =>
              cases hk
              simpa using hstop
          | succ k => cases hk
      | true =>
          rw [hp] at hk hstop
          simp only [if_true, List.map_cons, List.length_cons] at hk ⊢
          cases k with
          | zero =>
              -- The loop goes on, so another byte follows.
              cases hk
              rw [← hstop]
              constructor
              · rintro ⟨hfalse, hlen⟩
                have hmore := List.length_pos_iff.mpr (byteNotes_ne_nil note hfalse)
                omega
              · intro h
                cases h
          | succ k =>
              rw [List.getElem?_cons_succ] at hk
              have := ih _ passed.2 k ms hin₁ hrest₁ hk
              rw [← this, Nat.add_right_cancel_iff]

end Host

open Host in
/-- A general transfer stops behind byte `k`, counted from zero, if and only if the last set of
channels that the events after that byte have left has its channel. -/
theorem runChannel_stops_iff {κ β : Type} [Buses β] [Schedule κ β]
    {note : Host κ β → List ChannelMask}
    (hnote : ∀ h : Host κ β, LineWork h.rig (note h) (Schedule.fire h).rig)
    {h : Host κ β} {i : ChannelId} (hrest : i ∉ h.rig.controller.activity.ranInside)
    {k : Nat} {ms : List ChannelMask}
    (hk : ((h.transferNotes note i).map Prod.snd)[k]? = some ms) :
    ((h.runChannel i).1 = false ∧ (h.transferNotes note i).length = k + 1) ↔
      ∃ m, ms.getLast? = some m ∧ i ∈ m := by
  obtain ⟨d, hkeeps⟩ := h.keeps_prepare i
  have hid := h.prepare_id i
  rw [runChannel_eq]
  unfold transferNotes at hk ⊢
  generalize h.prepare i = p at hk hid hkeeps ⊢
  obtain ⟨t, progress, start⟩ := p
  subst hid
  exact moveBytes_stops_iff hnote t _ progress start k ms hkeeps.inTransfer
    (hkeeps.ranInside ▸ hrest) hk

/-! ### Two lines after one byte -/

/-- A queue of line transfers, each at its position. -/
structure LineQueue where
  lines : List (Int × ChannelMask)

namespace LineQueue

instance {β : Type} [Buses β] : Schedule LineQueue β where
  nextEvent q := q.lines.head?.map Prod.fst
  fire h :=
    match h.schedule.lines with
    | [] => h
    | line :: lines => ⟨(h.rig.runLine line.2).2, ⟨lines⟩⟩

/-- The channels of the line transfer that comes next. -/
def note {β : Type} (h : Host LineQueue β) : List ChannelMask :=
  (h.schedule.lines.head?.map Prod.snd).toList

theorem lineWork_fire {β : Type} [Buses β] (h : Host LineQueue β) :
    LineWork h.rig (note h) (Schedule.fire h).rig := by
  obtain ⟨r, lines⟩ := h
  cases lines with
  | mk lines =>
      cases lines with
      | nil => exact .done r
      | cons line lines => exact .line line.2 (.done _)

end LineQueue

section

attribute [local instance] Recorder.plain

/-- Channel 4 is about to send four bytes of work RAM, with line transfers to come. -/
def beforeLines (lines : List (Int × ChannelMask)) : Host LineQueue Recorder where
  rig :=
    { controller := (Controller.powerOn .standard).setChannel (channelNumber 4)
        { Channel.powerOn with
          control := .ofByte 0x00, port := 0x10, bank := 0x7E, address := 0, count := 4,
          lines := 10 }
      buses := { Recorder.blank false with
        memory := Memory.zero.load 0x7E0000 [0, 1, 2, 3, 4, 5, 6, 7] }
      cycles := 0 }
  schedule := ⟨lines⟩

/-- A line on channel 4 alone stops its transfer, also behind a line on another channel. -/
theorem beforeLines_stops :
    ((beforeLines [(16, .single 1), (17, .single 4)]).runChannel 4).1 = false ∧
      ((beforeLines [(16, .single 1), (17, .single 4)]).transferNotes LineQueue.note 4).length =
        0 + 1 := by
  have hk : (((beforeLines [(16, .single 1), (17, .single 4)]).transferNotes LineQueue.note
      4).map Prod.snd)[0]? = some [.single 1, .single 4] := by
    decide +kernel
  exact (runChannel_stops_iff LineQueue.lineWork_fire (by decide) hk).mpr
    ⟨.single 4, rfl, by decide⟩

/-- The line on channel 4 is forgotten over that on channel 1 which follows it after the same
byte. -/
theorem forgotten_collision :
    (((beforeLines [(16, .single 4), (17, .single 1)]).transferNotes LineQueue.note 4).map
        Prod.snd)[0]? = some [.single 4, .single 1] ∧
      (4 : ChannelId) ∈ ChannelMask.single 4 ∧
      ((beforeLines [(16, .single 4), (17, .single 1)]).runChannel 4).1 = true ∧
      ((beforeLines [(16, .single 4), (17, .single 1)]).transferNotes LineQueue.note 4).length =
        4 := by
  decide +kernel

end

end DmaController
