import DmaController.Proofs.LineTransfer.Tariff

/-! # The line counter of a channel

The line counter says how long the entry lasts in which a channel is.  A header fills it
(`Header.counted`), at the top of a frame (`Rig.lines_beginFrame`) or in a line, and every other
line takes one away (`Rig.lines_runLine`).  The end of a table fills it as `$80` does, the header of
the longest entries, with 128.  So a counter that headers have filled holds 1 to 128
(`Channel.Counting`), and no line and no frame changes that.

A counter that holds zero is not used up: the next line takes it to 255, and it has to go all the
way round before a header is fetched again (`Channel.linesLeft`, `Rig.linesLeft_runLines`). -/

namespace DmaController

/-- What a header fills the line counter with. -/
def Header.counted (v : UInt8) : UInt8 := if v = 0 ∨ v = 0x80 then 0x80 else v % 0x80

namespace Channel

/-- The line counter is as headers fill it and lines leave it. -/
def Counting (c : Channel) : Prop := c.lines ≠ 0 ∧ c.lines ≤ 0x80

/-- The lines up to the next header, with the one that fetches it. -/
def linesLeft (c : Channel) : Nat := if c.lines = 0 then 0x100 else c.lines.toNat

theorem repeats_nextLine (c : Channel) : c.nextLine.repeats = c.repeats := by
  unfold nextLine afterUnit passUnit
  dsimp only
  split
  · split <;> rfl
  · rfl

/-- A line that is not the last one of its entry leaves one line less. -/
theorem linesLeft_of_sub_one {c c' : Channel} (hlines : c'.lines = c.lines - 1)
    (hleft : 1 < c.linesLeft) : c'.linesLeft + 1 = c.linesLeft := by
  unfold linesLeft at hleft ⊢
  rw [hlines]
  have hc := c.lines.toNat_lt
  simp only [← UInt8.toNat_inj, UInt8.toNat_sub, UInt8.reduceToNat] at hleft ⊢
  split at hleft <;> split <;> omega

end Channel

theorem Header.counted_counting (v : UInt8) : counted v ≠ 0 ∧ counted v ≤ 0x80 := by
  have hv := v.toNat_lt
  unfold counted
  split
  · decide
  · rename_i hv'
    simp only [← UInt8.toNat_inj, UInt8.le_iff_toNat_le, UInt8.toNat_mod, UInt8.reduceToNat,
      not_or, ne_eq] at hv' ⊢
    omega

namespace Rig

/-! ### Turns -/

/-- A round leaves a channel as its turn has left it. -/
theorem foldl_comesTo {σ γ : Type} {f : σ → ChannelId → σ} {v : σ → γ} {i : ChannelId}
    (hother : ∀ s j, j ≠ i → v (f s j) = v s) {l : List ChannelId} (hl : l.Nodup) (hi : i ∈ l)
    (s : σ) : v (l.foldl f s) = v (f (comesTo f l s i) i) := by
  induction l generalizing s with
  | nil => cases hi
  | cons j l ih =>
      obtain ⟨hj, hl⟩ := List.nodup_cons.mp hl
      rw [List.foldl_cons]
      by_cases hji : j = i
      · subst hji
        rw [comesTo_self]
        exact foldl_induction (P := fun s' => v s' = v (f s j)) l
          (fun s' k hk h => (hother s' k fun e => hj (e ▸ hk)).trans h) rfl
      · rw [comesTo_of_ne f hji]
        exact ih hl ((List.mem_cons.mp hi).resolve_left (Ne.symm hji)) (f s j)

variable {β : Type} [Buses β] {r : Rig β} {m : ChannelMask} {i : ChannelId}

theorem channel_runLine_of_mem (hi : i ∈ m) :
    ∃ running,
      (r.runLine m).2.channel i = (stepLine running (r.comesToStep m i) i).2.channel i := by
  refine ⟨(comesTo (fun s j => stepLine s.1 s.2 j) m.toList (m, r.sendLine m) i).1, ?_⟩
  rw [runLine_snd, channel_closeLine]
  exact foldl_comesTo (v := fun s : ChannelMask × Rig β => s.2.channel i)
    (fun s j hj => (turn_stepLine s.1 s.2 j).channel (Ne.symm hj)) m.nodup_toList
    (ChannelMask.mem_toList.mpr hi) (m, r.sendLine m)

theorem channel_beginFrame (r : Rig β) (i : ChannelId) :
    r.beginFrame.channel i = ((r.comesToPrepare i).prepareChannel i).channel i :=
  foldl_comesTo (v := fun s : Rig β => s.channel i)
    (fun _ _ hj => (prepareChannel_of_ne (Ne.symm hj)).1) (List.nodup_finRange 8)
    (List.mem_finRange i) r.openFrame

/-! ### Headers and lines -/

theorem lines_endTable (r : Rig β) (i : ChannelId) (above : Bool) :
    ((r.endTable i above).channel i).lines = 0x80 := by
  unfold endTable
  dsimp only
  split <;> rw [channel_setChannel, if_pos rfl]

theorem lines_openEntry (r : Rig β) (i : ChannelId) (lines : UInt8) (repeats : Bool) :
    ((r.openEntry i lines repeats).channel i).lines = lines := by
  have hplace : ∀ c : Channel, (r.fetchPlace c).1.lines = c.lines := by
    intro c
    unfold fetchPlace
    split <;> rfl
  rw [openEntry_eq]
  dsimp only
  rw [channel_setChannel, if_pos rfl]
  exact hplace _

theorem lines_fetchHeader (r : Rig β) (i : ChannelId) :
    ((r.fetchHeader i).2.channel i).lines = Header.counted (r.headerAt i) := by
  have hread : (r.read (.of (r.channel i).bank (r.channel i).table)).1 = r.headerAt i := rfl
  rw [fetchHeader_eq]
  dsimp only
  rw [hread]
  unfold Header.ofByte Header.counted
  by_cases hstop : r.headerAt i = 0
  · rw [if_pos hstop, if_pos (.inl hstop)]
    exact lines_endTable _ i _
  by_cases hlong : r.headerAt i = 0x80
  · rw [if_neg hstop, if_pos hlong, if_pos (.inr hlong)]
    exact lines_openEntry _ i _ _
  · rw [if_neg hstop, if_neg hlong, if_neg (not_or.mpr ⟨hstop, hlong⟩)]
    exact lines_openEntry _ i _ _

/-- A line takes one from the counter of a channel that it is given; if none is left then, a header
fills the counter. -/
theorem lines_runLine (hi : i ∈ m) :
    ((r.runLine m).2.channel i).lines =
      if (r.channel i).lines - 1 = 0 then Header.counted (r.lineHeader m i)
      else (r.channel i).lines - 1 := by
  obtain ⟨running, hlast⟩ := channel_runLine_of_mem (r := r) hi
  obtain ⟨⟨p, hchannel⟩, -⟩ := r.comesToStep_spec m i
  have hlines : ((r.comesToStep m i).channel i).nextLine.lines = (r.channel i).lines - 1 := by
    rw [Channel.lines_nextLine, hchannel]
  rw [hlast, stepLine_eq]
  dsimp only
  rw [hlines]
  split
  · have hfetched := lines_fetchHeader ((r.comesToStep m i).modifyChannel i Channel.nextLine) i
    split
    · exact hfetched
    · rw [channel_modifyChannel, if_pos rfl]
      exact hfetched
  · rw [channel_spend, channel_modifyChannel, if_pos rfl, hlines]

/-- A line that fetches no header leaves it open whether units are repeated, as it was. -/
theorem repeats_runLine (hi : i ∈ m) (hlines : (r.channel i).lines - 1 ≠ 0) :
    ((r.runLine m).2.channel i).repeats = (r.channel i).repeats := by
  obtain ⟨running, hlast⟩ := channel_runLine_of_mem (r := r) hi
  obtain ⟨⟨p, hchannel⟩, -⟩ := r.comesToStep_spec m i
  rw [hlast, stepLine_eq]
  dsimp only
  rw [if_neg (by rw [Channel.lines_nextLine, hchannel]; exact hlines), channel_spend,
    channel_modifyChannel, if_pos rfl, Channel.repeats_nextLine, hchannel]

/-- The counter of a channel that is enabled is filled by the first header of its table. -/
theorem lines_beginFrame (hi : i ∈ r.controller.enabled) :
    (r.beginFrame.channel i).lines = Header.counted (r.frameHeader i) := by
  obtain ⟨-, hactive⟩ := r.comesToPrepare_spec i
  have hfetched := lines_fetchHeader ((r.comesToPrepare i).rewound i) i
  rw [channel_beginFrame, prepareChannel_of_mem ((hactive i (Fin.le_refl i)).mpr hi)]
  dsimp only
  split <;> exact hfetched

/-! ### What headers and lines keep -/

theorem counting_runLine (h : (r.channel i).Counting) (m : ChannelMask) :
    ((r.runLine m).2.channel i).Counting := by
  by_cases hi : i ∈ m
  · unfold Channel.Counting at h ⊢
    rw [lines_runLine hi]
    split
    · exact Header.counted_counting _
    · rename_i hmore
      refine ⟨hmore, ?_⟩
      simp only [ne_eq, ← UInt8.toNat_inj, UInt8.le_iff_toNat_le, UInt8.toNat_sub,
        UInt8.reduceToNat] at h ⊢
      omega
  · rw [channel_runLine_of_notMem hi]
    exact h

theorem counting_beginFrame (h : (r.channel i).Counting) : (r.beginFrame.channel i).Counting := by
  by_cases hi : i ∈ r.controller.enabled
  · unfold Channel.Counting
    rw [lines_beginFrame hi]
    exact Header.counted_counting _
  · rw [channel_beginFrame_of_notMem hi]
    exact h

/-! ### Rows of lines -/

/-- Lines pass by, each for the channels it is given. -/
def runLines (r : Rig β) (ms : List ChannelMask) : Rig β :=
  ms.foldl (fun s m => (s.runLine m).2) r

/-- As long as a channel is not given all the lines up to its next header, each of them leaves it
one line less of the same entry. -/
theorem linesLeft_runLines (ms : List ChannelMask) {r : Rig β}
    (hms : ms.countP (i ∈ ·) < (r.channel i).linesLeft) :
    ((r.runLines ms).channel i).linesLeft + ms.countP (i ∈ ·) = (r.channel i).linesLeft ∧
      ((r.runLines ms).channel i).repeats = (r.channel i).repeats := by
  induction ms generalizing r with
  | nil => exact ⟨rfl, rfl⟩
  | cons m ms ih =>
      show ((((r.runLine m).2).runLines ms).channel i).linesLeft + _ = _ ∧ _
      by_cases hi : i ∈ m
      · rw [List.countP_cons_of_pos (by simpa using hi)] at hms ⊢
        have hmore : (r.channel i).lines - 1 ≠ 0 := by
          intro hlast
          have hone : (r.channel i).lines = 1 := by grind
          rw [Channel.linesLeft, hone] at hms
          exact absurd hms (by simp)
        have hnext : ((r.runLine m).2.channel i).linesLeft + 1 = (r.channel i).linesLeft :=
          Channel.linesLeft_of_sub_one (by rw [lines_runLine hi, if_neg hmore]) (by omega)
        obtain ⟨hleft, hrepeats⟩ := ih (r := (r.runLine m).2) (by omega)
        exact ⟨by omega, hrepeats.trans (repeats_runLine hi hmore)⟩
      · rw [List.countP_cons_of_neg (by simpa using hi)] at hms ⊢
        rw [← channel_runLine_of_notMem (r := r) hi] at hms ⊢
        exact ih hms

end Rig

end DmaController
