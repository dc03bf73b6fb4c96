import DmaController.Proofs.LineTransfer.Turns

/-! # The setup of a channel

Line transfers read the setup of a channel and never change it: how bytes are moved, where to, and
where the table and the data lie (`Channel.SetAs`).  What they do change is the place in the table
and in the data, the state of the entry, and what belongs to the next unit.  The place in the data
is the count of an indirect channel; that of a direct one stays as well. -/

namespace DmaController

/-- The channel `c` has the setup of `c₀`. -/
structure Channel.SetAs (c₀ c : Channel) : Prop where
  control_eq : c.control = c₀.control
  port_eq : c.port = c₀.port
  address_eq : c.address = c₀.address
  bank_eq : c.bank = c₀.bank
  indirectBank_eq : c.indirectBank = c₀.indirectBank
  scratch_eq : c.scratch = c₀.scratch
  count_eq : c₀.control.indirect = false → c.count = c₀.count

namespace Channel.SetAs

variable {c₀ c c' : Channel}

theorem refl (c : Channel) : c.SetAs c := ⟨rfl, rfl, rfl, rfl, rfl, rfl, fun _ => rfl⟩

theorem trans (h : c₀.SetAs c) (h' : c.SetAs c') : c₀.SetAs c' :=
  ⟨h'.control_eq.trans h.control_eq, h'.port_eq.trans h.port_eq,
    h'.address_eq.trans h.address_eq, h'.bank_eq.trans h.bank_eq,
    h'.indirectBank_eq.trans h.indirectBank_eq, h'.scratch_eq.trans h.scratch_eq,
    fun hd => (h'.count_eq (h.control_eq ▸ hd)).trans (h.count_eq hd)⟩

theorem mode_eq (h : c₀.SetAs c) : c.mode = c₀.mode := by
  rw [mode, h.control_eq]
  rfl

theorem passUnit (c : Channel) : c.SetAs c.passUnit := by
  unfold Channel.passUnit
  dsimp only
  split
  · rename_i hindirect
    refine ⟨rfl, rfl, rfl, rfl, rfl, rfl, fun hdirect => ?_⟩
    exact absurd hindirect (Bool.eq_false_iff.mp hdirect)
  · exact ⟨rfl, rfl, rfl, rfl, rfl, rfl, fun _ => rfl⟩

theorem afterUnit (c : Channel) : c.SetAs c.afterUnit := by
  unfold Channel.afterUnit
  split
  · exact passUnit c
  · exact refl c

theorem nextLine (c : Channel) : c.SetAs c.nextLine :=
  (afterUnit c).trans ⟨rfl, rfl, rfl, rfl, rfl, rfl, fun _ => rfl⟩

end Channel.SetAs

namespace Rig

variable {β : Type} [Buses β]

theorem setAs_endTable (r : Rig β) (i : ChannelId) (above : Bool) :
    (r.channel i).SetAs ((r.endTable i above).channel i) := by
  unfold endTable
  dsimp only
  split
  · rename_i hindirect
    rw [channel_setChannel, if_pos rfl]
    refine ⟨rfl, rfl, rfl, rfl, rfl, rfl, fun hdirect => ?_⟩
    exact absurd hindirect (Bool.eq_false_iff.mp hdirect)
  · rw [channel_setChannel, if_pos rfl]
    exact ⟨rfl, rfl, rfl, rfl, rfl, rfl, fun _ => rfl⟩

theorem setAs_fetchPlace (r : Rig β) (c : Channel) : c.SetAs (r.fetchPlace c).1 := by
  unfold fetchPlace
  split
  · rename_i hindirect
    refine ⟨rfl, rfl, rfl, rfl, rfl, rfl, fun hdirect => ?_⟩
    exact absurd hindirect (Bool.eq_false_iff.mp hdirect)
  · exact .refl c

theorem setAs_openEntry (r : Rig β) (i : ChannelId) (lines : UInt8) (repeats : Bool) :
    (r.channel i).SetAs ((r.openEntry i lines repeats).channel i) := by
  rw [openEntry_eq]
  have hheader : (r.channel i).SetAs ((r.channel i).takeHeader lines repeats) :=
    ⟨rfl, rfl, rfl, rfl, rfl, rfl, fun _ => rfl⟩
  have hplaced := hheader.trans (r.setAs_fetchPlace ((r.channel i).takeHeader lines repeats))
  generalize r.fetchPlace _ = placed at hplaced ⊢
  dsimp only
  rw [channel_setChannel, if_pos rfl]
  exact hplaced.trans ⟨rfl, rfl, rfl, rfl, rfl, rfl, fun _ => rfl⟩

theorem setAs_fetchHeader (r : Rig β) (i : ChannelId) :
    (r.channel i).SetAs ((r.fetchHeader i).2.channel i) := by
  rw [fetchHeader_eq]
  dsimp only
  generalize Address.of _ _ = a
  cases Header.ofByte (r.read a).1 with
  | stop => exact setAs_endTable ((r.read a).2.spend slowAccess) i _
  | entry lines repeats => exact setAs_openEntry ((r.read a).2.spend slowAccess) i lines repeats

theorem setAs_stepLine (running : ChannelMask) (r : Rig β) (i : ChannelId) :
    (r.channel i).SetAs ((stepLine running r i).2.channel i) := by
  have hown : (r.modifyChannel i Channel.nextLine).channel i = (r.channel i).nextLine := by
    rw [channel_modifyChannel, if_pos rfl]
  have hline : (r.channel i).SetAs ((r.modifyChannel i Channel.nextLine).channel i) := by
    rw [hown]
    exact .nextLine _
  have hfetched := hline.trans (setAs_fetchHeader (r.modifyChannel i Channel.nextLine) i)
  rw [stepLine_eq]
  dsimp only
  split
  · split
    · exact hfetched
    · rw [channel_modifyChannel, if_pos rfl]
      exact hfetched.trans ⟨rfl, rfl, rfl, rfl, rfl, rfl, fun _ => rfl⟩
  · exact hline

omit [Buses β] in
theorem SameSetup.setAs {r r' : Rig β} (h : r.SameSetup r') (i : ChannelId) :
    (r.channel i).SetAs (r'.channel i) := by
  obtain ⟨p, hp⟩ := h i
  rw [hp]
  exact ⟨rfl, rfl, rfl, rfl, rfl, rfl, fun _ => rfl⟩

omit [Buses β] in
/-- What every turn keeps of the setup, a round keeps. -/
theorem setAs_of_turn {r s : Rig β} {i j : ChannelId} (h : r.Turn j s)
    (hown : (r.channel j).SetAs (s.channel j)) : (r.channel i).SetAs (s.channel i) := by
  by_cases hij : i = j
  · subst hij
    exact hown
  · rw [h.channel hij]
    exact .refl _

/-- A line changes no setup. -/
theorem setAs_runLine (r : Rig β) (m : ChannelMask) (i : ChannelId) :
    (r.channel i).SetAs ((r.runLine m).2.channel i) := by
  have hsent : (r.channel i).SetAs ((r.sendLine m).channel i) :=
    foldl_induction (P := fun s : Rig β => (r.channel i).SetAs (s.channel i)) _
      (fun s j _ h => h.trans ((recached_sendInTurn s j).sameSetup.setAs i))
      (s := r.openLine m) (.refl _)
  rw [runLine_snd, channel_closeLine]
  exact foldl_induction
    (P := fun s : ChannelMask × Rig β => (r.channel i).SetAs (s.2.channel i)) _
    (fun s j _ h =>
      h.trans (setAs_of_turn (turn_stepLine s.1 s.2 j) (setAs_stepLine s.1 s.2 j)))
    (s := (m, r.sendLine m)) hsent

/-- Nor does a frame. -/
theorem setAs_beginFrame (r : Rig β) (i : ChannelId) :
    (r.channel i).SetAs (r.beginFrame.channel i) := by
  obtain ⟨s, -, hchannel, -, hlast, -⟩ :=
    beginFrame_turn (P := fun _ => True) (fun _ _ _ => trivial) (r := r) trivial i
  rw [hlast, ← hchannel]
  by_cases hi : i ∈ s.controller.active
  · have hrewound : (s.channel i).SetAs ((s.rewound i).channel i) := by
      rw [channel_rewound]
      exact ⟨rfl, rfl, rfl, rfl, rfl, rfl, fun _ => rfl⟩
    have hfetched := hrewound.trans (setAs_fetchHeader (s.rewound i) i)
    rw [prepareChannel_of_mem hi]
    dsimp only
    split
    · exact hfetched
    · exact hfetched
  · rw [prepareChannel_of_notMem hi, channel_modifyChannel, if_pos rfl]
    exact ⟨rfl, rfl, rfl, rfl, rfl, rfl, fun _ => rfl⟩

end Rig

end DmaController
