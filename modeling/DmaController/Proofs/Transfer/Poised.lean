import DmaController.Proofs.Transfer.Events
import DmaController.Proofs.Work

/-! # The moment a byte is moved

Moving a byte of a general transfer begins with what has to be settled first: a stretch that is
used up is followed by the next one, and where the use of work RAM is settled byte by byte, it is
said (`Transfer.poise`).  The accesses to the buses come after that (`Transfer.carry`), so the rig
in between is the one at which the byte is moved.  The accesses leave the controller alone
(`controller_carry`). -/

namespace DmaController

namespace Transfer

variable {β : Type} [Buses β]

/-- What is settled ahead of a byte. -/
def poise (t : Transfer) (progress : Progress) (r : Rig β) : Progress × Rig β :=
  match progress with
  | .idle => (.idle, r)
  | .collecting place =>
    (.collecting place,
      if t.channel.mayMeetWorkRamPort then
        r.setWorkRamTaken (decide ((r.channel t.id).address < 0x2000))
      else r)
  | .sending place position s =>
    let (s, r) := t.currentStretch s r
    (.sending place position s, r)

/-- The accesses of a byte. -/
def carry (t : Transfer) (progress : Progress) (r : Rig β) : Rig β :=
  match progress with
  | .idle => r
  | .collecting place =>
    let got := r.readRegister (t.channel.register place.offset)
    got.2.write (.of t.channel.bank (r.channel t.id).address) got.1
  | .sending place position s => t.sendByte place position s r

/-- Moving a byte is settling what comes ahead of it, and the accesses. -/
theorem moveByte_snd (t : Transfer) (progress : Progress) (r : Rig β) :
    (t.moveByte progress r).2 = t.carry (t.poise progress r).1 (t.poise progress r).2 := by
  cases progress with
  | idle => rfl
  | collecting place =>
      simp only [moveByte, collectByte, poise, carry]
      split <;> rfl
  | sending place position s => rfl

theorem works_openStretch (t : Transfer) (o : UInt16) (left : Nat) (r : Rig β) :
    r.Works (t.openStretch o left r).2 :=
  (Rig.Works.start.step (.blockPointer _ _)).say (isWorkRam t.channel.bank o)

/-- A stretch is opened with its word on work RAM. -/
theorem said_openStretch {taken : β → Bool} (ht : Heeds taken) (t : Transfer) (o : UInt16)
    (left : Nat) (r : Rig β) :
    (t.openStretch o left r).2.Said taken (t.openStretch o left r).1.taken :=
  .say ht (isWorkRam t.channel.bank o) (r.blockPointer (.of t.channel.bank o)).2

theorem works_poise (t : Transfer) (progress : Progress) (r : Rig β) :
    r.Works (t.poise progress r).2 := by
  cases progress with
  | idle => exact .start
  | collecting place =>
      unfold poise
      dsimp only
      split
      · exact Rig.Works.start.say _
      · exact .start
  | sending place position s =>
      show r.Works (t.currentStretch s r).2
      unfold currentStretch
      split
      · exact t.works_openStretch _ _ r
      · exact .start

theorem works_fetch (t : Transfer) (source : Source) (position : UInt16) (r : Rig β) :
    r.Works (t.fetch source position r).2 := by
  cases source with
  | mapped => exact Rig.Works.start.step (.read _ _)
  | block base => exact Rig.Works.start.step (.peek _ _)
  | decoder => exact .start

theorem works_deliver (route : Route) (a : UInt16) (o v : UInt8) (taken : Bool) (r : Rig β) :
    r.Works (route.deliver a o v taken r) := by
  cases route with
  | ordinary => exact Rig.Works.start.step (.writeRegister _ _ _)
  | sprite => exact Rig.Works.start.step (.writeSprite _ _)
  | video high remapped => exact Rig.Works.start.step (.writeVideo _ _ _ _)
  | videoPair remapped =>
      unfold Route.deliver
      dsimp only
      split
      · exact (Rig.Works.start.step (.setOpenBus _ _)).step (.writeVideo _ _ _ _)
      · exact Rig.Works.start.step (.writeVideo _ _ _ _)
  | colour => exact Rig.Works.start.step (.writeColour _ _)
  | workRam =>
      unfold Route.deliver
      dsimp only
      split
      · exact .start
      · exact Rig.Works.start.step (.writeWorkRam _ _)

theorem works_carry (t : Transfer) (progress : Progress) (r : Rig β) :
    r.Works (t.carry progress r) := by
  cases progress with
  | idle => exact .start
  | collecting place =>
      exact (Rig.Works.start.step (.readRegister _ _)).step (.write _ _ _)
  | sending place position s =>
      exact (t.works_fetch s.source position r).trans (works_deliver _ _ _ _ _ _)

theorem works_moveByte (t : Transfer) (progress : Progress) (r : Rig β) :
    r.Works (t.moveByte progress r).2 := by
  rw [moveByte_snd]
  exact (t.works_poise progress r).trans (t.works_carry _ _)

/-- Delivering a byte is an access to the buses and nothing else. -/
theorem deliver_eq (route : Route) (a : UInt16) (o v : UInt8) (taken : Bool) (r : Rig β) :
    ∃ b, route.deliver a o v taken r = { r with buses := b } := by
  cases route with
  | videoPair remapped =>
      unfold Route.deliver
      dsimp only
      split <;> exact ⟨_, rfl⟩
  | workRam =>
      unfold Route.deliver
      dsimp only
      split <;> exact ⟨_, rfl⟩
  | _ => exact ⟨_, rfl⟩

theorem carry_eq (t : Transfer) (progress : Progress) (r : Rig β) :
    ∃ b, t.carry progress r = { r with buses := b } := by
  cases progress with
  | idle => exact ⟨r.buses, rfl⟩
  | collecting place => exact ⟨_, rfl⟩
  | sending place position s =>
      have hfetched : ∃ b, (t.fetch s.source position r).2 = { r with buses := b } := by
        cases s.source <;> exact ⟨_, rfl⟩
      obtain ⟨b, hb⟩ := hfetched
      obtain ⟨b', hb'⟩ := deliver_eq s.route (t.channel.register place.offset) place.offset
        (t.fetch s.source position r).1 s.taken (t.fetch s.source position r).2
      rw [hb] at hb'
      exact ⟨b', by rw [← hb', ← hb]; rfl⟩

theorem controller_carry (t : Transfer) (progress : Progress) (r : Rig β) :
    (t.carry progress r).controller = r.controller := by
  obtain ⟨b, hb⟩ := t.carry_eq progress r
  rw [hb]

/-- The accesses of a byte leave controller and buses the word they have on work RAM. -/
theorem said_carry {taken : β → Bool} (ht : Heeds taken) (t : Transfer) (progress : Progress)
    {word : Bool} {r : Rig β} (h : r.Said taken word) : (t.carry progress r).Said taken word :=
  h.works ht (t.works_carry progress r) (by rw [t.controller_carry])

theorem cycles_poise (t : Transfer) (progress : Progress) (r : Rig β) :
    (t.poise progress r).2.cycles = r.cycles := by
  cases progress with
  | idle => rfl
  | collecting place =>
      unfold poise
      dsimp only
      split <;> rfl
  | sending place position s =>
      show (t.currentStretch s r).2.cycles = r.cycles
      unfold currentStretch
      split <;> rfl

/-- The time of a byte is counted when it has been moved. -/
theorem cycles_moveByte (t : Transfer) (progress : Progress) (r : Rig β) :
    (t.moveByte progress r).2.cycles = r.cycles := by
  obtain ⟨b, hb⟩ := t.carry_eq (t.poise progress r).1 (t.poise progress r).2
  rw [moveByte_snd, hb]
  exact t.cycles_poise progress r

theorem cycles_begin (t : Transfer) (decoded : Bool) (r : Rig β) :
    (t.begin decoded r).2.cycles = r.cycles := by
  unfold Transfer.begin
  split
  · unfold beginCollecting
    dsimp only
    split <;> rfl
  · unfold beginSending
    split <;> rfl

end Transfer

/-! ### Bytes without events -/

namespace Transfer

variable {β : Type} [Buses β]

/-- The rig behind a byte after which no event was due. -/
def quietByte (t : Transfer) (progress : Progress) (r : Rig β) : Rig β :=
  (((t.moveByte progress r).2.modifyChannel t.id (·.countDown t.step)).spend
    slowAccess).modifyActivity fun a => { a with ranInside := ∅ }

theorem channel_quietByte (t : Transfer) (progress : Progress) (r : Rig β) :
    (t.quietByte progress r).channel t.id = (r.channel t.id).countDown t.step := by
  have hcounted : (t.quietByte progress r).channel t.id =
      ((t.moveByte progress r).2.modifyChannel t.id (·.countDown t.step)).channel t.id := rfl
  rw [hcounted, Rig.channel_modifyChannel, if_pos rfl,
    (Host.keeps_moveByte t progress r).channel]

end Transfer

namespace Host

variable {κ β : Type} [Buses β] [Schedule κ β]

theorem passByte_byteDone {t : Transfer} {progress : Progress} {h : Host κ β}
    (hq : h.Quiet slowAccess) (hran : t.id ∉ h.rig.controller.activity.ranInside) :
    (h.byteDone t progress).passByte t.id =
      (true, { h with rig := t.quietByte progress h.rig }) := by
  have hcycles : (h.byteDone t progress).rig.cycles = h.rig.cycles :=
    t.cycles_moveByte progress h.rig
  have hq' : (h.byteDone t progress).Quiet slowAccess := by
    intro position hp
    rw [hcycles]
    exact hq position hp
  have hran' : t.id ∉ (h.byteDone t progress).rig.controller.activity.ranInside := by
    have hkept := (keeps_moveByte t progress h.rig).ranInside
    show t.id ∉ (t.moveByte progress h.rig).2.controller.activity.ranInside
    rwa [hkept]
  rw [passByte_of_quiet hq' hran']
  rfl

/-- What every byte keeps, with one byte more done and one less to go, a run keeps in which no
event becomes due, and it comes to its end. -/
theorem moveBytes_quiet {P : Nat → Nat → Progress → Rig β → Prop} {t : Transfer}
    (hbyte : ∀ k n progress r, P k (n + 1) progress r →
      P (k + 1) n (t.moveByte progress r).1 (t.quietByte progress r))
    (n k : Nat) {progress : Progress} {h : Host κ β} (hP : P k n progress h.rig)
    (hq : h.Quiet (slowAccess * n)) (hran : t.id ∉ h.rig.controller.activity.ranInside) :
    (moveBytes t n progress h).1 = true ∧
      ∃ progress', P (k + n) 0 progress' (moveBytes t n progress h).2.rig := by
  induction n generalizing k progress h with
  | zero => exact ⟨rfl, progress, hP⟩
  | succ n ih =>
      have hcycles : (t.quietByte progress h.rig).cycles = h.rig.cycles + slowAccess :=
        congrArg (· + slowAccess) (t.cycles_moveByte progress h.rig)
      have hq₁ : h.Quiet slowAccess := by
        intro position hp
        have hdue := hq position hp
        simp only [slowAccess] at hdue ⊢
        omega
      have hq₂ : Quiet { h with rig := t.quietByte progress h.rig } (slowAccess * n) := by
        intro position hp
        have hdue := hq position hp
        rw [hcycles]
        simp only [slowAccess] at hdue ⊢
        omega
      rw [moveBytes_succ, passByte_byteDone hq₁ hran, if_pos rfl, ← Nat.add_assoc,
        Nat.add_right_comm]
      exact ih (k + 1) (hbyte k n progress h.rig hP) hq₂ (ChannelMask.not_mem_empty t.id)

end Host

end DmaController
