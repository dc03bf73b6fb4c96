import DmaController.Proofs.LineTransfer.Playback

/-! # All register writes of a line

Whatever its channels are and whatever lies behind the buses, a line writes to the registers what
its channels write in their turns of sending, one after the other, and nothing else
(`calls_runLine`).  In particular the second round, with all its headers, writes nothing. -/

namespace DmaController

variable {β : Type} [Buses β]

/-- Everything may be written. -/
def Clearance.everything : Clearance where
  register _ := True
  place _ := True

/-- Of no memory at all everything is true that is asked of a steady one. -/
theorem steadyBytes_nothing :
    SteadyBytes (fun _ => none) .everything (fun _ : β => True) where
  read _ h := by cases h
  good_read _ _ := trivial
  good_peek _ _ := trivial
  good_writeRegister _ _ _ := trivial
  good_setOpenBus _ _ := trivial
  good_setWorkRamTaken _ _ := trivial
  good_bytePointer _ _ := trivial
  peek_byte _ _ := fun _ _ h => by cases h
  good_readRegister _ _ := trivial
  good_write _ _ _ := trivial
  good_setSpriteAddress _ _ := trivial

namespace Rig

/-- From `r` to `r'` the notebook has grown. -/
def Grows (r r' : Rig (Traced β)) : Prop := ∃ calls, r'.buses.calls = r.buses.calls ++ calls

namespace Grows

variable {r r' r'' : Rig (Traced β)}

omit [Buses β] in
theorem refl (r : Rig (Traced β)) : r.Grows r := ⟨[], (List.append_nil _).symm⟩

omit [Buses β] in
theorem trans (h : r.Grows r') (h' : r'.Grows r'') : r.Grows r'' := by
  obtain ⟨calls, e⟩ := h
  obtain ⟨calls', e'⟩ := h'
  exact ⟨calls ++ calls', by rw [e', e, List.append_assoc]⟩

omit [Buses β] in
theorem setCache (h : r.Grows r') (i : ChannelId) (p : Option Pointer) :
    r.Grows (r'.setCache i p) := h

theorem setWorkRamTaken (h : r.Grows r') (taken : Bool) : r.Grows (r'.setWorkRamTaken taken) :=
  h.trans ⟨_, rfl⟩

theorem read (h : r.Grows r') (a : Address) : r.Grows (r'.read a).2 := h.trans ⟨_, rfl⟩

theorem readRegister (h : r.Grows r') (a : UInt16) : r.Grows (r'.readRegister a).2 :=
  h.trans ⟨_, rfl⟩

theorem peek (h : r.Grows r') (p : Pointer) : r.Grows (r'.peek p).2 := h.trans ⟨_, rfl⟩

theorem write (h : r.Grows r') (a : Address) (v : UInt8) :
    r.Grows ((r'.write a v).spend slowAccess) := h.trans ⟨_, rfl⟩

theorem writeRegister (h : r.Grows r') (a : UInt16) (v : UInt8) :
    r.Grows ((r'.writeRegister a v).spend slowAccess) := h.trans ⟨_, rfl⟩

omit [Buses β] in
theorem modifyBuses (h : r.Grows r') {f : Traced β → Traced β} {c : BusCall}
    (hf : (f r'.buses).calls = r'.buses.calls ++ [c]) : r.Grows (r'.modifyBuses f) :=
  h.trans ⟨[c], hf⟩

end Grows

theorem grows_collectUnit (c : Channel) (r : Rig (Traced β)) : r.Grows (r.collectUnit c) := by
  refine forUnit_induction (P := r.Grows) _ _ _ (.refl r) ?_
  intro k o s _ h
  exact ((h.setWorkRamTaken _).readRegister _).write _ _

theorem grows_sendStraddling (c : Channel) (r : Rig (Traced β)) : r.Grows (r.sendStraddling c) := by
  refine forUnit_induction (P := r.Grows) _ _ _ (.refl r) ?_
  intro k o s _ h
  exact ((h.setWorkRamTaken _).read _).writeRegister _ _

theorem grows_sendMapped (c : Channel) (r : Rig (Traced β)) : r.Grows (r.sendMapped c) := by
  refine forUnit_induction (P := r.Grows) _ _ _ (.refl r) ?_
  intro k o s _ h
  exact (h.read _).writeRegister _ _

theorem grows_sendDirect (c : Channel) (p : Pointer) (r : Rig (Traced β)) :
    r.Grows (r.sendDirect c p) := by
  refine forUnit_induction (P := r.Grows) _ _ _ (.refl r) ?_
  intro k o s _ h
  have hpeek := h.peek (p.offset (UInt64.ofNat k))
  dsimp only
  split
  · exact (hpeek.modifyBuses (c := .setOpenBus _) rfl).writeRegister _ _
  · exact hpeek.writeRegister _ _

theorem grows_refreshCache (r : Rig (Traced β)) (i : ChannelId) : r.Grows (r.refreshCache i) := by
  obtain ⟨calls, hcalls, -⟩ := (sends_refreshCache steadyBytes_nothing r i).calls
  exact ⟨calls, hcalls⟩

theorem grows_pointSprites (c : Channel) (r : Rig (Traced β)) : r.Grows (r.pointSprites c) := by
  obtain ⟨calls, hcalls, -⟩ := (sends_pointSprites steadyBytes_nothing c r).calls
  exact ⟨calls, hcalls⟩

/-- Whatever a channel does in its turn of sending, it is noted behind what was noted before. -/
theorem grows_sendInTurn (r : Rig (Traced β)) (i : ChannelId) : r.Grows (r.sendInTurn i) := by
  have hstart : r.Grows ((r.setWorkRamTaken false).setCurrent i) :=
    (Grows.refl r).setWorkRamTaken false
  refine hstart.trans ?_
  unfold sendInTurn
  generalize (r.setWorkRamTaken false).setCurrent i = r
  rw [sendUnit_eq]
  refine (r.grows_refreshCache i).trans ?_
  generalize r.refreshCache i = r
  generalize r.channel i = c
  have hs := r.grows_pointSprites c
  dsimp only
  split
  · exact .refl r
  split
  · exact (hs.setCache i none).trans (grows_collectUnit c _)
  split
  · exact (hs.setCache i none).trans (grows_sendStraddling c _)
  have ht := hs.setWorkRamTaken (isWorkRam c.lineBank c.lineOffset)
  cases c.cache with
  | none => exact ht.trans (grows_sendMapped c _)
  | some p => exact (ht.trans (grows_sendDirect c p _)).setCache i _

theorem calls_writesInTurn (r : Rig (Traced β)) (i : ChannelId) :
    Traced.Calls BusCall.written? r.buses (r.sendInTurn i).buses (writesInTurn (r, i)) := by
  obtain ⟨calls, hcalls⟩ := r.grows_sendInTurn i
  refine ⟨calls, hcalls, ?_⟩
  rw [writesInTurn, hcalls, List.drop_left]

/-- A round of turns writes what each of them writes, one after the other. -/
theorem calls_turnsOf (l : List ChannelId) (r : Rig (Traced β)) :
    Traced.Calls BusCall.written? r.buses (l.foldl sendInTurn r).buses
      ((turnsOf sendInTurn l r).flatMap writesInTurn) :=
  foldl_run (R := fun s s' ws => Traced.Calls BusCall.written? s.buses s'.buses ws)
    (fun _ => .of_eq rfl) .trans l fun turn _ => calls_writesInTurn turn.1 turn.2

/-- The second round writes nothing. -/
theorem calls_stepLines (r : Rig (Traced β)) (m : ChannelMask) :
    Traced.Calls BusCall.written? r.buses (r.stepLines m).2.buses [] :=
  foldl_induction
    (P := fun s : ChannelMask × Rig (Traced β) =>
      Traced.Calls BusCall.written? r.buses s.2.buses []) _
    (fun s i _ h => h.trans (sends_stepLine steadyBytes_nothing s.1 s.2 i).calls) (.of_eq rfl)

/-- A line writes to the registers what its channels write in their turns of sending. -/
theorem calls_runLine (r : Rig (Traced β)) (m : ChannelMask) :
    Traced.Calls BusCall.written? r.buses (r.runLine m).2.buses
      ((r.turns m).flatMap writesInTurn) := by
  have hsent : Traced.Calls BusCall.written? r.buses (r.sendLine m).buses
      ((r.turns m).flatMap writesInTurn) := calls_turnsOf m.toList (r.openLine m)
  have hstepped := hsent.trans (calls_stepLines (r.sendLine m) m)
  have hclosed : Traced.Calls BusCall.written? ((r.sendLine m).stepLines m).2.buses
      (r.runLine m).2.buses [] := by
    rw [runLine_snd, buses_closeLine]
    exact Traced.Calls.one (c := .setWorkRamTaken r.controller.activity.workRamTaken) rfl
  have hall := hstepped.trans hclosed
  rwa [List.append_nil, List.append_nil] at hall

end Rig

end DmaController
