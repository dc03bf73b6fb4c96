import DmaController.Console.Basic
import DmaController.Proofs.Console.Pace
import DmaController.Proofs.Transfer.Discipline
import DmaController.Proofs.Transfer.Stretches

/-! # The ready register

A general transfer that moves bytes uses the ready register of a fitted decoder up when it starts,
whether its bytes come out of the decoder or not, and whether it comes to its end or not.  A
transfer that would feed work RAM through its own port does not get so far, and leaves the register
as it was (`Host.ready_of_moves`, `Host.ready_of_feeds`).

Where nobody writes it, the register can only stay or be used up (`Controller.NoReadier`).
`Host.Unprompted` is a ledger of the general transfers that were started in such a stretch of work.
From it we read off that behind a transfer that moves bytes none comes out of the decoder, and that
a decoder that is ready is good for one transfer at most (`Unprompted.balance`).  So no more
transfers come out of the decoder than the processor has prompted (`ready_register_used_up`); but it
need not be the next one that does (`misfired_still_ready`). -/

namespace DmaController

/-! ### Where the bytes come from -/

/-- Whether the byte at hand comes out of the decoder. -/
def Progress.fromDecoder : Progress → Bool
  | .sending _ _ s => decide (s.source = .decoder)
  | _ => false

namespace Transfer

variable {β : Type} [Buses β]

theorem source_openStretch_ne (t : Transfer) (o : UInt16) (left : Nat) (r : Rig β) :
    (t.openStretch o left r).1.source ≠ .decoder := by
  rw [source_openStretch]
  cases (Buses.blockPointer (.of t.channel.bank o) r.buses).1 <;> exact Source.noConfusion

/-- A transfer that does not come out of the decoder does not go over to it. -/
theorem fromDecoder_poise (t : Transfer) {progress : Progress} (r : Rig β)
    (h : progress.fromDecoder = false) : (t.poise progress r).1.fromDecoder = false := by
  cases progress with
  | idle => rfl
  | collecting place => rfl
  | sending place position s =>
      show decide ((t.currentStretch s r).1.source = .decoder) = false
      unfold currentStretch
      split
      · exact decide_eq_false (t.source_openStretch_ne _ _ r)
      · exact h

theorem fromDecoder_moveByte (t : Transfer) (progress : Progress) (r : Rig β) :
    (t.moveByte progress r).1.fromDecoder = (t.poise progress r).1.fromDecoder := by
  cases progress <;> rfl

theorem fromDecoder_begin (t : Transfer) (decoded : Bool) (r : Rig β) :
    (t.begin decoded r).1.fromDecoder = (decoded && !t.channel.control.reverse) := by
  unfold «begin»
  cases t.channel.control.reverse with
  | true => simp [beginCollecting, Progress.fromDecoder]
  | false =>
      cases decoded with
      | true => rfl
      | false => exact decide_eq_false (t.source_openStretch_ne _ _ r)

/-- The first byte comes from where the transfer begins. -/
theorem fromDecoder_poise_begin (t : Transfer) (decoded : Bool) (r r' : Rig β) :
    (t.poise (t.begin decoded r).1 r').1.fromDecoder = (t.begin decoded r).1.fromDecoder := by
  cases hbegun : (t.begin decoded r).1.fromDecoder with
  | false => exact t.fromDecoder_poise r' hbegun
  | true =>
      rw [fromDecoder_begin, Bool.and_eq_true, Bool.not_eq_true'] at hbegun
      obtain ⟨rfl, hforward⟩ := hbegun
      unfold «begin»
      rw [hforward, if_neg Bool.false_ne_true]
      show decide ((t.currentStretch _ r').1.source = .decoder) = true
      -- The one stretch out of the decoder is as long as the transfer.
      unfold currentStretch
      rw [if_neg (Nat.pos_iff_ne_zero.mp t.channel.length_pos)]
      rfl

end Transfer

namespace Host

section

variable {κ β : Type} [Buses β] [Schedule κ β]

/-- Whether a byte of the transfer of channel `i` comes out of the decoder. -/
def readsDecoder (h : Host κ β) (i : ChannelId) : Bool :=
  let (t, progress, start) := h.prepare i
  (bytesAhead t (h.rig.channel i).length progress start).any fun ahead =>
    (t.poise ahead.1 ahead.2.rig).1.fromDecoder

theorem any_bytesAhead (t : Transfer) (n : Nat) {progress : Progress} {h : Host κ β}
    (hp : progress.fromDecoder = false) :
    ((bytesAhead t n progress h).any fun ahead =>
      (t.poise ahead.1 ahead.2.rig).1.fromDecoder) = false := by
  induction n generalizing progress h with
  | zero => rfl
  | succ n ih =>
      have hpoised := t.fromDecoder_poise h.rig hp
      rw [bytesAhead, List.any_cons, hpoised, Bool.false_or]
      split
      · exact ih ((t.fromDecoder_moveByte progress h.rig).trans hpoised)
      · rfl

omit [Schedule κ β] in
theorem fromDecoder_prepare (h : Host κ β) (i : ChannelId) :
    (h.prepare i).2.1.fromDecoder = (h.isDecoded i && !(h.rig.channel i).control.reverse &&
      !(h.rig.channel i).feedsWorkRamItself) := by
  unfold prepare
  dsimp only
  cases hfeeds : (h.rig.channel i).feedsWorkRamItself with
  | true => simp [Progress.fromDecoder]
  | false =>
      have hdecoded : ((h.rig.channel i).control.fixed && (h.noteStart i).takeDecoderReady.1) =
          h.isDecoded i := by
        rw [takeDecoderReady_fst, ← Bool.and_assoc]
        rfl
      simp only [Bool.false_eq_true, if_false, Transfer.fromDecoder_begin, hdecoded, Bool.not_false,
        Bool.and_true]

omit [Schedule κ β] in
theorem fromDecoder_poise_prepare (h : Host κ β) (i : ChannelId) (r : Rig β) :
    ((h.prepare i).1.poise (h.prepare i).2.1 r).1.fromDecoder =
      (h.prepare i).2.1.fromDecoder := by
  unfold prepare
  dsimp only
  split
  · rfl
  · exact Transfer.fromDecoder_poise_begin _ _ _ r

/-- The transfers that come out of the decoder are those to the registers, from a fixed address,
that find it ready. -/
theorem readsDecoder_eq (h : Host κ β) (i : ChannelId) :
    h.readsDecoder i = (h.isDecoded i && !(h.rig.channel i).control.reverse &&
      !(h.rig.channel i).feedsWorkRamItself) := by
  obtain ⟨n, hn⟩ : ∃ n, (h.rig.channel i).length = n + 1 :=
    ⟨_, (Nat.succ_pred_eq_of_pos (h.rig.channel i).length_pos).symm⟩
  have hfirst := h.fromDecoder_poise_prepare i
  rw [← fromDecoder_prepare]
  unfold readsDecoder
  generalize h.prepare i = prepared at hfirst ⊢
  obtain ⟨t, progress, start⟩ := prepared
  dsimp only at hfirst ⊢
  cases hp : progress.fromDecoder with
  | false => exact any_bytesAhead t _ hp
  | true => rw [hn, bytesAhead, List.any_cons, hfirst, hp, Bool.true_or]

end

end Host

/-! ### What becomes of the register -/

/-- From `k` to `k'` nothing has made the decoder ready: it is fitted as before, and the ready
register has stayed or was used up. -/
structure Controller.NoReadier (k k' : Controller) : Prop where
  fitted : k'.settings.decoderFitted = k.settings.decoderFitted
  ready : k'.decoder.ready = k.decoder.ready ∨ k'.decoder.ready = 0

namespace Controller.NoReadier

variable {k k' k'' : Controller}

theorem beside (hsettings : k'.settings = k.settings) (hdecoder : k'.decoder = k.decoder) :
    k.NoReadier k' := ⟨by rw [hsettings], .inl (by rw [hdecoder])⟩

theorem refl (k : Controller) : k.NoReadier k := beside rfl rfl

theorem usedUp (h : k.NoReadier k') (hready : k.decoder.ready = 0) : k'.decoder.ready = 0 := by
  rcases h.ready with hstayed | hused
  · exact hstayed.trans hready
  · exact hused

theorem trans (h : k.NoReadier k') (h' : k'.NoReadier k'') : k.NoReadier k'' := by
  refine ⟨h'.fitted.trans h.fitted, ?_⟩
  rcases h.ready with hstayed | hused
  · rw [← hstayed]
    exact h'.ready
  · exact .inr (h'.usedUp hused)

end Controller.NoReadier

namespace Rig

variable {β : Type} [Buses β]

theorem noReadier_runLine (r : Rig β) (m : ChannelMask) :
    r.controller.NoReadier (r.runLine m).2.controller :=
  .beside (r.works_runLine m).settings (r.decoder_runLine m)

theorem noReadier_beginFrame (r : Rig β) : r.controller.NoReadier r.beginFrame.controller :=
  .beside r.works_beginFrame.settings r.decoder_beginFrame

theorem noReadier_fetchHeader (r : Rig β) (i : ChannelId) :
    r.controller.NoReadier (r.fetchHeader i).2.controller :=
  .beside (r.works_fetchHeader i).settings (r.within_fetchHeader i).decoder

end Rig

theorem Beam.decoder_fire {β : Type} [Buses β] (h : Host Beam β) :
    (fire h).rig.controller.decoder = h.rig.controller.decoder := by
  unfold fire
  cases h.schedule.event with
  | beginFrame => exact h.rig.decoder_beginFrame
  | runLine =>
      dsimp only
      split
      · rfl
      · exact h.rig.decoder_runLine _
  | endLine => rfl

namespace Host

variable {κ β : Type} [Buses β] [Schedule κ β]

/-- A transfer that feeds work RAM through its own port leaves the register alone. -/
theorem ready_of_feeds (hstay : ∀ e : Host κ β,
      (Schedule.fire e).rig.controller.decoder.ready = e.rig.controller.decoder.ready)
    {h : Host κ β} {i : ChannelId} (hfeeds : (h.rig.channel i).feedsWorkRamItself = true) :
    (h.runChannel i).2.rig.controller.decoder.ready = h.rig.controller.decoder.ready := by
  refine decoder_runChannel (P := fun _ d => d.ready = h.rig.controller.decoder.ready)
    (fun e he => (hstay e).trans he) h i ?_
  rw [if_pos hfeeds]

variable (hevents : ∀ e : Host κ β, e.rig.controller.NoReadier (Schedule.fire e).rig.controller)

include hevents

/-- A transfer that moves bytes uses the register up. -/
theorem ready_of_moves {h : Host κ β} (hfitted : h.rig.controller.settings.decoderFitted = true)
    {i : ChannelId} (hmoves : (h.rig.channel i).feedsWorkRamItself = false) :
    (h.runChannel i).2.rig.controller.decoder.ready = 0 := by
  refine decoder_runChannel (P := fun _ d => d.ready = 0) (fun e he => (hevents e).usedUp he) h i ?_
  rw [if_neg (Bool.eq_false_iff.mp hmoves), decoder_takeDecoderReady, if_pos hfitted]

theorem noReadier_runChannel (h : Host κ β) (i : ChannelId) :
    h.rig.controller.NoReadier (h.runChannel i).2.rig.controller := by
  have hkept := decoder_runChannel
    (P := fun s d =>
      h.rig.controller.NoReadier { h.rig.controller with settings := s, decoder := d })
    (fun e he => ?_) h i ?_
  · exact ⟨hkept.fitted, hkept.ready⟩
  · have hhere : h.rig.controller.NoReadier e.rig.controller := ⟨he.fitted, he.ready⟩
    have hbehind := hhere.trans (hevents e)
    exact ⟨hbehind.fitted, hbehind.ready⟩
  · rw [decoder_takeDecoderReady]
    split
    · exact .refl _
    split
    · exact ⟨rfl, .inr rfl⟩
    · exact .refl _

end Host

/-! ### The ledger -/

namespace Host

variable {κ β : Type} [Buses β] [Schedule κ β]

/-- From one host to another these general transfers were started, and nothing else has made the
decoder ready. -/
inductive Unprompted : Host κ β → List (Host κ β × ChannelId) → Host κ β → Prop
  | done {h h' : Host κ β} (beside : h.rig.controller.NoReadier h'.rig.controller) :
      Unprompted h [] h'
  | transfer {h e h' : Host κ β} {i : ChannelId} {transfers : List (Host κ β × ChannelId)}
      (beside : h.rig.controller.NoReadier e.rig.controller)
      (rest : Unprompted (e.runChannel i).2 transfers h') : Unprompted h ((e, i) :: transfers) h'

/-- How many transfers the register is good for. -/
def charge (h : Host κ β) : Nat := if h.rig.controller.decoder.ready = 0 then 0 else 1

omit [Buses β] [Schedule κ β] in
theorem charge_eq_zero {h : Host κ β} (hready : h.rig.controller.decoder.ready = 0) :
    h.charge = 0 := if_pos hready

omit [Buses β] [Schedule κ β] in
theorem charge_le_of_noReadier {h h' : Host κ β}
    (hwork : h.rig.controller.NoReadier h'.rig.controller) : h'.charge ≤ h.charge := by
  unfold charge
  rcases hwork.ready with hstayed | hused
  · exact Nat.le_of_eq (by rw [hstayed])
  · rw [if_pos hused]
    exact Nat.zero_le _

/-- A transfer that comes out of the decoder has found it ready, and moves bytes. -/
theorem ready_of_readsDecoder {h : Host κ β} {i : ChannelId} (hreads : h.readsDecoder i = true) :
    h.rig.controller.decoder.ready ≠ 0 ∧ (h.rig.channel i).feedsWorkRamItself = false := by
  rw [readsDecoder_eq, isDecoded] at hreads
  simp only [Bool.and_eq_true, Bool.not_eq_true', bne_iff_ne] at hreads
  exact ⟨hreads.1.1.2, hreads.2⟩

namespace Unprompted

variable {h h' h'' : Host κ β} {transfers transfers' : List (Host κ β × ChannelId)}

theorem behind (hledger : Unprompted h' transfers h'')
    (hwork : h.rig.controller.NoReadier h'.rig.controller) : Unprompted h transfers h'' := by
  cases hledger with
  | done hbeside => exact .done (hwork.trans hbeside)
  | transfer hbeside hrest => exact .transfer (hwork.trans hbeside) hrest

theorem append (hledger : Unprompted h transfers h') (hledger' : Unprompted h' transfers' h'') :
    Unprompted h (transfers ++ transfers') h'' := by
  induction hledger with
  | done hbeside => exact hledger'.behind hbeside
  | transfer hbeside _ ih => exact .transfer hbeside (ih hledger')

variable (hevents : ∀ e : Host κ β, e.rig.controller.NoReadier (Schedule.fire e).rig.controller)

include hevents

theorem noReadier (hledger : Unprompted h transfers h') :
    h.rig.controller.NoReadier h'.rig.controller := by
  induction hledger with
  | done hbeside => exact hbeside
  | @transfer h e h' i _ hbeside _ ih =>
      exact (hbeside.trans (noReadier_runChannel hevents e i)).trans ih

/-- The ledger is balanced: what was drawn and what is left is no more than what was there. -/
theorem balance (hledger : Unprompted h transfers h')
    (hfitted : h.rig.controller.settings.decoderFitted = true) :
    (transfers.countP fun t => t.1.readsDecoder t.2) + h'.charge ≤ h.charge := by
  induction hledger with
  | done hbeside =>
      rw [List.countP_nil, Nat.zero_add]
      exact charge_le_of_noReadier hbeside
  | @transfer h e h' i transfers hbeside _ ih =>
      have hfitted' := hbeside.fitted.trans hfitted
      have hran := noReadier_runChannel hevents e i
      have hrest := ih (hran.fitted.trans hfitted')
      have hcharge := charge_le_of_noReadier hbeside
      cases hreads : e.readsDecoder i with
      | false =>
          have hafter := charge_le_of_noReadier hran
          rw [List.countP_cons, hreads, if_neg Bool.false_ne_true]
          omega
      | true =>
          obtain ⟨hready, hmoves⟩ := ready_of_readsDecoder hreads
          have hfull : e.charge = 1 := if_neg hready
          have hafter := charge_eq_zero (ready_of_moves hevents hfitted' hmoves)
          rw [List.countP_cons, hreads, if_pos rfl]
          omega

/-- Where the register is used up, no transfer comes out of the decoder. -/
theorem none_reads (hledger : Unprompted h transfers h')
    (hfitted : h.rig.controller.settings.decoderFitted = true)
    (hready : h.rig.controller.decoder.ready = 0) :
    ∀ t ∈ transfers, t.1.readsDecoder t.2 = false := by
  have hbalance := hledger.balance hevents hfitted
  rw [charge_eq_zero hready] at hbalance
  have hnone : (transfers.countP fun t => t.1.readsDecoder t.2) = 0 := by omega
  intro t ht
  exact Bool.eq_false_iff.mpr (List.countP_eq_zero.mp hnone t ht)

/-- Behind a transfer that moves bytes none comes out of the decoder. -/
theorem pairwise (hledger : Unprompted h transfers h')
    (hfitted : h.rig.controller.settings.decoderFitted = true) :
    transfers.Pairwise fun x y =>
      (x.1.rig.channel x.2).feedsWorkRamItself = false → y.1.readsDecoder y.2 = false := by
  induction hledger with
  | done _ => exact .nil
  | @transfer h e h' i transfers hbeside hrest ih =>
      have hfitted' := hbeside.fitted.trans hfitted
      have hran := noReadier_runChannel hevents e i
      have hfitted'' := hran.fitted.trans hfitted'
      refine .cons (fun y hy hmoves => ?_) (ih hfitted'')
      exact hrest.none_reads hevents hfitted'' (ready_of_moves hevents hfitted' hmoves) y hy

end Unprompted

end Host

/-! ### Tasks -/

/-- Whether the processor makes a fitted decoder ready. -/
def Task.prompts : Task → Bool
  | write a v => a == 0x4801 && v != 0
  | _ => false

namespace Host

variable {κ β : Type} [Buses β] [Schedule κ β]

/-- Writing a register makes the decoder ready only if that is what it is for; what it starts is
another matter. -/
theorem noReadier_writeRegister (h : Host κ β) {a : UInt16} (ha : a ≠ 0x420B) {v : UInt8}
    (hv : (Task.write a v).prompts = false) :
    h.rig.controller.NoReadier (h.writeRegister a v).rig.controller := by
  unfold writeRegister
  rw [if_neg ha]
  split
  · show h.rig.controller.NoReadier (h.rig.controller.enable ⟨v⟩)
    unfold Controller.enable
    split
    · exact .refl _
    · exact .beside rfl rfl
  split
  · exact .beside rfl rfl
  split
  · rename_i hready
    have hzero : v = 0 := by simpa [Task.prompts, hready] using hv
    show h.rig.controller.NoReadier (h.rig.controller.writeReady v)
    unfold Controller.writeReady
    split
    · exact ⟨rfl, .inr hzero⟩
    · exact .refl _
  · exact .refl _

theorem unprompted_turns (l : List ChannelId) (h : Host κ β) :
    Unprompted h (Rig.turnsOf (fun h i => (h.runChannel i).2) l h)
      (l.foldl (fun h i => (h.runChannel i).2) h) := by
  induction l generalizing h with
  | nil => exact .done (.refl _)
  | cons i l ih => exact .transfer (.refl _) (ih (h.runChannel i).2)

theorem unprompted_startChannels (h : Host κ β) (m : ChannelMask) :
    Unprompted h (h.starting m) (h.startChannels m) := by
  unfold startChannels starting
  split
  · exact .done (.refl _)
  · have hturns := unprompted_turns m.toList (h.spend h.rig.controller.settings.syncDelay)
    exact hturns.behind (.beside rfl rfl)

/-- A task is entered in the ledger with its transfers. -/
theorem unprompted_task (h : Host κ β) {task : Task} (hquiet : task.prompts = false) :
    Unprompted h (task.transfers h) (task.run h) := by
  cases task with
  | write a v =>
      show Unprompted h (h.startedBy a v) (h.writeRegister a v)
      unfold startedBy
      by_cases ha : a = 0x420B
      · rw [if_pos ha, ha]
        exact h.unprompted_startChannels ⟨v⟩
      · rw [if_neg ha]
        exact .done (h.noReadier_writeRegister ha hquiet)
  | start m => exact h.unprompted_startChannels m
  | transfer i => exact .transfer (.refl _) (.done (.refl _))
  | frame => exact .done h.rig.noReadier_beginFrame
  | line m => exact .done (h.rig.noReadier_runLine m)
  | header i => exact .done (h.rig.noReadier_fetchHeader i)
  | reset => exact .done (.beside rfl rfl)

theorem unprompted_tasks (tasks : List Task) (h : Host κ β)
    (hquiet : ∀ task ∈ tasks, task.prompts = false) :
    Unprompted h (h.transfersOf tasks) (h.afterTasks tasks) := by
  induction tasks generalizing h with
  | nil => exact .done (.refl _)
  | cons task tasks ih =>
      obtain ⟨htask, hrest⟩ := List.forall_mem_cons.mp hquiet
      exact (h.unprompted_task htask).append (ih (task.run h) hrest)

/-- Making the decoder ready starts no transfer. -/
theorem task_of_prompts (h : Host κ β) {task : Task} (hprompts : task.prompts = true) :
    task.transfers h = [] ∧
      (task.run h).rig.controller.settings = h.rig.controller.settings := by
  cases task with
  | write a v =>
      have ha : a = 0x4801 := by
        simp only [Task.prompts, Bool.and_eq_true, beq_iff_eq] at hprompts
        exact hprompts.1
      subst ha
      refine ⟨rfl, ?_⟩
      show (h.rig.controller.writeReady v).settings = _
      unfold Controller.writeReady
      split <;> rfl
  | _ => cases hprompts

section

variable (hevents : ∀ e : Host κ β, e.rig.controller.NoReadier (Schedule.fire e).rig.controller)

include hevents

theorem fitted_task {h : Host κ β} (hfitted : h.rig.controller.settings.decoderFitted = true)
    (task : Task) : (task.run h).rig.controller.settings.decoderFitted = true := by
  cases hprompts : task.prompts with
  | true => rw [(h.task_of_prompts hprompts).2, hfitted]
  | false => exact ((h.unprompted_task hprompts).noReadier hevents).fitted.trans hfitted

theorem fitted_afterTasks (tasks : List Task) {h : Host κ β}
    (hfitted : h.rig.controller.settings.decoderFitted = true) :
    (h.afterTasks tasks).rig.controller.settings.decoderFitted = true := by
  induction tasks generalizing h with
  | nil => exact hfitted
  | cons task tasks ih => exact ih (fitted_task hevents hfitted task)

/-- No more transfers come out of the decoder than it was made ready for. -/
theorem countP_readsDecoder (tasks : List Task) {h : Host κ β}
    (hfitted : h.rig.controller.settings.decoderFitted = true) :
    ((h.transfersOf tasks).countP fun t => t.1.readsDecoder t.2) ≤
      h.charge + tasks.countP Task.prompts := by
  induction tasks generalizing h with
  | nil => exact Nat.zero_le _
  | cons task tasks ih =>
      have hrest := ih (fitted_task hevents hfitted task)
      rw [transfersOf, List.countP_append, List.countP_cons]
      cases hprompts : task.prompts with
      | true =>
          have hcharge : (task.run h).charge ≤ 1 := by
            unfold charge
            split <;> decide
          rw [(h.task_of_prompts hprompts).1, List.countP_nil, if_pos rfl]
          omega
      | false =>
          have hbalance := (h.unprompted_task hprompts).balance hevents hfitted
          rw [if_neg Bool.false_ne_true]
          omega

end

end Host

/-- A transfer that moves bytes uses the ready register up, and one that feeds work RAM through its
own port leaves it alone.  In any row of tasks no more transfers come out of the decoder than it was
made ready for; and until the processor makes it ready again, none does behind one that moves
bytes. -/
theorem ready_register_used_up {κ β : Type} [Buses β] [Schedule κ β]
    (hevents : ∀ e : Host κ β, e.rig.controller.NoReadier (Schedule.fire e).rig.controller)
    {h : Host κ β} (hfitted : h.rig.controller.settings.decoderFitted = true) :
    (∀ i, (h.rig.channel i).feedsWorkRamItself = false →
        (h.runChannel i).2.rig.controller.decoder.ready = 0) ∧
      ((∀ e : Host κ β,
          (Schedule.fire e).rig.controller.decoder.ready = e.rig.controller.decoder.ready) →
        ∀ i, (h.rig.channel i).feedsWorkRamItself = true →
          (h.runChannel i).2.rig.controller.decoder.ready = h.rig.controller.decoder.ready) ∧
      (∀ tasks : List Task, ((h.transfersOf tasks).countP fun t => t.1.readsDecoder t.2) ≤
        h.charge + tasks.countP Task.prompts) ∧
      ∀ before after : List Task, (∀ task ∈ after, task.prompts = false) →
        ((h.afterTasks before).transfersOf after).Pairwise fun x y =>
          (x.1.rig.channel x.2).feedsWorkRamItself = false → y.1.readsDecoder y.2 = false := by
  refine ⟨fun i hmoves => Host.ready_of_moves hevents hfitted hmoves,
    fun hstay i hfeeds => Host.ready_of_feeds hstay hfeeds,
    fun tasks => Host.countP_readsDecoder hevents tasks hfitted, fun before after hquiet => ?_⟩
  have hfitted' := Host.fitted_afterTasks hevents before hfitted
  exact (Host.unprompted_tasks after _ hquiet).pairwise hevents hfitted'

/-! ### A transfer that moves nothing -/

/-- Channel 0 would feed work RAM through its own port; channels 1 and 2 are to send a byte each
from a fixed address. -/
def misfired : Console :=
  let toPort : Channel := { Channel.powerOn with
    control := .ofByte 0x00, port := 0x80, bank := 0x7E, address := 0, count := 1 }
  let toColours : Channel := { Channel.powerOn with
    control := .ofByte 0x08, port := 0x22, bank := 0x7E, address := 0, count := 1 }
  let fitted := Controller.powerOn { Settings.standard with decoderFitted := true }
  let both := (fitted.setChannel (channelNumber 0) toPort).setChannel (channelNumber 1) toColours
  { rig := ⟨both.setChannel (channelNumber 2) toColours, .powerOn, 0⟩, schedule := .powerOn }

/-- Prompted once, the decoder supplies one of the transfers that move bytes, and prompted again it
supplies one more. -/
theorem misfired_used_up :
    let h := misfired.afterTasks [.write 0x4801 1]
    let tasks : List Task := [.transfer 0, .write 0x420B 6, .write 0x4801 5, .transfer 2]
    ((h.transfersOf tasks).map fun t => (t.2, t.1.readsDecoder t.2)) =
        [(0, false), (1, true), (2, false), (2, true)] ∧
      (h.runChannel 1).2.rig.controller.decoder.ready = 0 ∧
      (h.runChannel 0).2.rig.controller.decoder.ready = h.rig.controller.decoder.ready ∧
      ((h.transfersOf tasks).countP fun t => t.1.readsDecoder t.2) ≤
        h.charge + tasks.countP Task.prompts ∧
      ((h.afterTasks [.transfer 0]).transfersOf [.write 0x420B 6]).Pairwise fun x y =>
        (x.1.rig.channel x.2).feedsWorkRamItself = false → y.1.readsDecoder y.2 = false := by
  intro h tasks
  have hevents : ∀ e : Console, e.rig.controller.NoReadier (Schedule.fire e).rig.controller :=
    fun e => .beside (Beam.settings_fire e) (Beam.decoder_fire e)
  have hstay : ∀ e : Console,
      (Schedule.fire e).rig.controller.decoder.ready = e.rig.controller.decoder.ready :=
    fun e => congrArg StreamDecoder.ready (Beam.decoder_fire e)
  obtain ⟨hmoves, hfeeds, hcount, hpairwise⟩ :=
    ready_register_used_up hevents (h := h) (by decide +kernel)
  exact ⟨by decide +kernel, hmoves 1 (by decide +kernel), hfeeds hstay 0 (by decide +kernel),
    hcount tasks, hpairwise [.transfer 0] [.write 0x420B 6] (by decide)⟩

/-- The decoder is still ready behind the transfer that comes next to the prompt, and the one after
that takes its byte from there. -/
theorem misfired_still_ready :
    let h := misfired.afterTasks [.write 0x4801 1]
    (∀ e : Console, (Schedule.fire e).rig.controller.decoder = e.rig.controller.decoder) ∧
      h.rig.controller.settings.decoderFitted = true ∧
      (h.runChannel 0).2.rig.controller.decoder.ready ≠ 0 ∧
      ((misfired.transfersOf [.write 0x4801 1, .transfer 0, .transfer 1]).map fun t =>
        (t.2, t.1.readsDecoder t.2)) = [(0, false), (1, true)] :=
  ⟨Beam.decoder_fire, by decide +kernel, by decide +kernel, by decide +kernel⟩

end DmaController
