import DmaController.Proofs.LineTransfer.Turns

/-! # Requests for line transfers

The processor and the screen ask a controller for line transfers (`LineRequest`): the processor
enables channels, a frame begins, or a line has ended.  `Rig.serve` carries out a request.

Three sets of channels govern what is done then, and each request changes them in its own way.  It
leaves them *consistent* whenever it finds them so: the active channels are those that are enabled
and have not ended (`consistent_serve`).  A path (`Rig.Path`) is a run seen from these sets, with
the requests in it and anything that leaves the sets alone; every stop of a path is consistent if
its start is (`Path.consistent`), and a channel that has ended stays out of the lines of a path
that are given active channels only, until a frame begins (`Path.ended_stays_out`). -/

namespace DmaController

/-! ### Requests -/

/-- What may be asked of a controller in line transfers. -/
inductive LineRequest where
  /-- The processor writes `$420C`. -/
  | enable (m : ChannelMask)
  /-- A frame begins. -/
  | frame
  /-- A line has ended, and these channels are to run. -/
  | line (m : ChannelMask)
deriving DecidableEq, Repr

namespace Rig

variable {β : Type} [Buses β]

/-- Serves a request.  A line is answered with the channels that go on. -/
def serve (r : Rig β) : LineRequest → Option ChannelMask × Rig β
  | .enable m => (none, { r with controller := r.controller.enable m })
  | .frame => (none, r.beginFrame)
  | .line m => (some (r.runLine m).1, (r.runLine m).2)

/-- Serves requests one after the other, with all their answers. -/
def serveAll (r : Rig β) : List LineRequest → List (Option ChannelMask) × Rig β
  | [] => ([], r)
  | q :: qs =>
    let rest := (r.serve q).2.serveAll qs
    ((r.serve q).1 :: rest.1, rest.2)

/-! ### The sets of channels -/

/-- The active channels are the enabled ones whose tables have not ended. -/
def Consistent (r : Rig β) : Prop :=
  r.controller.active = r.controller.enabled \ r.controller.ended

instance (r : Rig β) : Decidable r.Consistent :=
  inferInstanceAs (Decidable (_ = _))

/-- From `r` to `r'` the three sets have stayed. -/
structure SameSets (r r' : Rig β) : Prop where
  active : r'.controller.active = r.controller.active
  enabled : r'.controller.enabled = r.controller.enabled
  ended : r'.controller.ended = r.controller.ended

namespace SameSets

omit [Buses β]

variable {r r' r'' : Rig β}

theorem refl (r : Rig β) : r.SameSets r := ⟨rfl, rfl, rfl⟩

theorem trans (h : r.SameSets r') (h' : r'.SameSets r'') : r.SameSets r'' :=
  ⟨h'.active.trans h.active, h'.enabled.trans h.enabled, h'.ended.trans h.ended⟩

theorem of_keeps (h : r.Keeps r') : r.SameSets r' := ⟨h.active, h.enabled, h.ended⟩

theorem consistent (h : r.SameSets r') (hc : r.Consistent) : r'.Consistent := by
  rw [Consistent, h.active, h.enabled, h.ended]
  exact hc

end SameSets

/-- From `r` to `r'` no more of the controller has changed than its channels and its record. -/
def Within (r r' : Rig β) : Prop :=
  ∃ channels activity,
    r'.controller = { r.controller with channels := channels, activity := activity }

namespace Within

omit [Buses β]

variable {r r' r'' : Rig β}

theorem refl (r : Rig β) : r.Within r := ⟨_, _, rfl⟩

theorem trans (h : r.Within r') (h' : r'.Within r'') : r.Within r'' := by
  obtain ⟨channels, activity, e⟩ := h
  obtain ⟨channels', activity', e'⟩ := h'
  exact ⟨channels', activity', by rw [e', e]⟩

theorem of_keeps (h : r.Keeps r') : r.Within r' := by
  obtain ⟨taken, e⟩ := h
  exact ⟨r.controller.channels, _, e⟩

theorem setCache (h : r.Within r') (i : ChannelId) (p : Option Pointer) :
    r.Within (r'.setCache i p) := h.trans ⟨_, _, rfl⟩

theorem sameSets (h : r.Within r') : r.SameSets r' := by
  obtain ⟨channels, activity, e⟩ := h
  constructor <;> rw [e]

theorem decoder (h : r.Within r') : r'.controller.decoder = r.controller.decoder := by
  obtain ⟨channels, activity, e⟩ := h
  rw [e]

end Within

theorem within_sendUnit (r : Rig β) (i : ChannelId) : r.Within (r.sendUnit i) := by
  have hrefresh : r.Within (r.refreshCache i) := by
    cases hc : (r.channel i).cache with
    | some p =>
        rw [refreshCache_of_some hc]
        exact .refl r
    | none =>
        rw [refreshCache_of_none hc]
        exact ⟨_, _, rfl⟩
  rw [sendUnit_eq]
  generalize r.refreshCache i = s at hrefresh ⊢
  generalize s.channel i = c
  have hpointed := hrefresh.trans (.of_keeps (s.keeps_pointSprites c))
  dsimp only
  split
  · exact hrefresh
  split
  · exact (hpointed.setCache i none).trans (.of_keeps (keeps_collectUnit c _))
  split
  · exact (hpointed.setCache i none).trans (.of_keeps (keeps_sendStraddling c _))
  have htaken := hpointed.trans
    (.of_keeps ((Keeps.refl _).setWorkRamTaken (isWorkRam c.lineBank c.lineOffset)))
  split
  · exact htaken.trans (.of_keeps (keeps_sendMapped c _))
  · exact (htaken.trans (.of_keeps (keeps_sendDirect c _ _))).setCache i _

theorem within_sendInTurn (r : Rig β) (i : ChannelId) : r.Within (r.sendInTurn i) := by
  have hcurrent : r.Within ((r.setWorkRamTaken false).setCurrent i) := ⟨_, _, rfl⟩
  exact hcurrent.trans (within_sendUnit _ i)

theorem sameSets_sendInTurn (r : Rig β) (i : ChannelId) : r.SameSets (r.sendInTurn i) :=
  (within_sendInTurn r i).sameSets

theorem within_fetchHeader (r : Rig β) (i : ChannelId) : r.Within (r.fetchHeader i).2 := by
  rw [fetchHeader_eq]
  dsimp only
  generalize Address.of _ _ = a
  cases Header.ofByte (r.read a).1 with
  | stop =>
      unfold endTable
      dsimp only
      split <;> exact ⟨_, _, rfl⟩
  | entry lines repeats =>
      dsimp only
      rw [openEntry_eq]
      unfold fetchPlace
      split <;> exact ⟨_, _, rfl⟩

theorem sameSets_fetchHeader (r : Rig β) (i : ChannelId) : r.SameSets (r.fetchHeader i).2 :=
  (within_fetchHeader r i).sameSets

/-- Stepping on, a channel has ended just if it leaves the running ones. -/
theorem sets_stepLine (running : ChannelMask) (r : Rig β) (i : ChannelId) :
    r.SameSets (stepLine running r i).2 ∧ (stepLine running r i).1 = running ∨
      (stepLine running r i).2.controller.active = r.controller.active ∧
      (stepLine running r i).2.controller.enabled = r.controller.enabled ∧
      (stepLine running r i).2.controller.ended = r.controller.ended.insert i ∧
      (stepLine running r i).1 = running.erase i := by
  have hstepped : r.SameSets (r.modifyChannel i Channel.nextLine) := ⟨rfl, rfl, rfl⟩
  have hfetched := hstepped.trans (sameSets_fetchHeader _ i)
  rw [stepLine_eq]
  dsimp only
  split
  · split
    · exact .inl ⟨hfetched, rfl⟩
    · refine .inr ⟨hfetched.active, hfetched.enabled, ?_, rfl⟩
      exact congrArg (ChannelMask.insert · i) hfetched.ended
  · exact .inl ⟨⟨rfl, rfl, rfl⟩, rfl⟩

/-- A line ends the channels that it was given and that do not go on. -/
theorem mem_ended_runLine {r : Rig β} {m : ChannelMask} {j : ChannelId} :
    j ∈ (r.runLine m).2.controller.ended ↔
      j ∈ r.controller.ended ∨ j ∈ m ∧ j ∉ (r.runLine m).1 := by
  have hsent : r.SameSets (r.sendLine m) :=
    foldl_induction (P := r.SameSets) _ (fun s i _ h => h.trans (sameSets_sendInTurn s i))
      ⟨rfl, rfl, rfl⟩
  have hstepped : ∀ j, j ∈ ((r.sendLine m).stepLines m).2.controller.ended ↔
      j ∈ r.controller.ended ∨ j ∈ m ∧ j ∉ ((r.sendLine m).stepLines m).1 := by
    refine foldl_induction (P := fun t : ChannelMask × Rig β => ∀ j,
      j ∈ t.2.controller.ended ↔ j ∈ r.controller.ended ∨ j ∈ m ∧ j ∉ t.1) m.toList ?_ ?_
    · rintro ⟨running, s⟩ i hi h j
      have hm := ChannelMask.mem_toList.mp hi
      rcases sets_stepLine running s i with ⟨hsets, hrunning⟩ | ⟨-, -, hended, hrunning⟩
      · rw [hsets.ended, hrunning]
        exact h j
      · rw [hended, hrunning, ChannelMask.mem_insert, ChannelMask.mem_erase, h j]
        by_cases hij : i = j
        · subst hij
          simp [hm]
        · simp [hij]
    · intro j
      rw [hsent.ended]
      simp
  rw [runLine_snd, ended_closeLine, runLine_fst]
  exact hstepped j

/-- Preparing a channel, it has ended just if it leaves the active ones. -/
theorem consistent_prepareChannel {r : Rig β} (h : r.Consistent) (i : ChannelId) :
    (r.prepareChannel i).Consistent := by
  by_cases hi : i ∈ r.controller.active
  · have hrewound : r.SameSets (r.rewound i) := ⟨rfl, rfl, rfl⟩
    have hfetched := hrewound.trans (sameSets_fetchHeader _ i)
    rw [prepareChannel_of_mem hi]
    dsimp only
    generalize (r.rewound i).fetchHeader i = fetched at hfetched ⊢
    split
    · exact hfetched.consistent h
    · have hactive := hfetched.consistent h
      show fetched.2.controller.active.erase i =
        fetched.2.controller.enabled \ fetched.2.controller.ended.insert i
      rw [hactive]
      apply ChannelMask.ext_mem
      intro j
      simp only [ChannelMask.mem_erase, ChannelMask.mem_sdiff, ChannelMask.mem_insert, not_or,
        and_assoc]
  · rw [prepareChannel_of_notMem hi]
    exact h

/-- Whatever the sets were, a frame leaves them consistent. -/
theorem consistent_beginFrame (r : Rig β) : r.beginFrame.Consistent := by
  have hopen : r.openFrame.Consistent := by
    rw [Consistent, controller_openFrame]
    apply ChannelMask.ext_mem
    simp
  have hprepared := foldl_induction (List.finRange 8)
    (fun s i _ h => consistent_prepareChannel (r := s) h i) hopen
  have hclosed : ((List.finRange 8).foldl prepareChannel r.openFrame).SameSets r.beginFrame :=
    ⟨rfl, rfl, rfl⟩
  exact hclosed.consistent hprepared

/-- Only channels that are to run end as a frame begins. -/
theorem ended_prepareChannel {r : Rig β} {i j : ChannelId}
    (h : j ∈ (r.prepareChannel i).controller.ended) :
    j ∈ r.controller.ended ∨ j ∈ r.controller.active := by
  by_cases hi : i ∈ r.controller.active
  · have hrewound : r.SameSets (r.rewound i) := ⟨rfl, rfl, rfl⟩
    have hfetched := hrewound.trans (sameSets_fetchHeader _ i)
    rw [prepareChannel_of_mem hi] at h
    dsimp only at h
    generalize (r.rewound i).fetchHeader i = fetched at hfetched h
    split at h
    · rw [hfetched.ended] at h
      exact .inl h
    · have hinsert : j ∈ fetched.2.controller.ended.insert i := h
      rw [hfetched.ended, ChannelMask.mem_insert] at hinsert
      rcases hinsert with hj | rfl
      · exact .inl hj
      · exact .inr hi
  · rw [prepareChannel_of_notMem hi] at h
    exact .inl h

/-- A frame ends the enabled channels that it does not leave active. -/
theorem mem_ended_beginFrame {r : Rig β} {i : ChannelId} :
    i ∈ r.beginFrame.controller.ended ↔
      i ∈ r.controller.enabled ∧ i ∉ r.beginFrame.controller.active := by
  have hconsistent : r.beginFrame.controller.active =
      r.beginFrame.controller.enabled \ r.beginFrame.controller.ended := r.consistent_beginFrame
  have henabled : i ∈ r.beginFrame.controller.ended → i ∈ r.controller.enabled := by
    refine (foldl_induction (P := fun s : Rig β =>
      (i ∈ s.controller.ended → i ∈ r.controller.enabled) ∧
        (i ∈ s.controller.active → i ∈ r.controller.enabled)) (List.finRange 8)
      (fun s j _ h => ⟨fun hs => ?_, fun hs => h.2 ((s.prepareChannel_keeps j).2.2 i hs)⟩)
      (s := r.openFrame) ?_).1
    · exact (ended_prepareChannel hs).elim h.1 h.2
    · rw [controller_openFrame]
      exact ⟨fun hs => absurd hs (ChannelMask.not_mem_empty i), id⟩
  rw [hconsistent, enabled_beginFrame, ChannelMask.mem_sdiff]
  constructor
  · exact fun hi => ⟨henabled hi, fun hactive => hactive.2 hi⟩
  · rintro ⟨hi, hactive⟩
    exact Decidable.not_not.mp fun hended => hactive ⟨hi, hended⟩

theorem consistent_serve {r : Rig β} (h : r.Consistent) (q : LineRequest) :
    (r.serve q).2.Consistent := by
  cases q with
  | enable m =>
      show (r.controller.enable m).active = (r.controller.enable m).enabled \
        (r.controller.enable m).ended
      unfold Controller.enable
      split
      · exact h
      · rfl
  | frame => exact r.consistent_beginFrame
  | line m =>
      show (r.runLine m).2.controller.active = (r.runLine m).2.controller.enabled \
        (r.runLine m).2.controller.ended
      rw [active_runLine, enabled_runLine, show r.controller.active = _ from h]
      apply ChannelMask.ext_mem
      intro j
      simp only [ChannelMask.mem_sdiff, mem_ended_runLine, not_or, and_assoc]

/-- Until a frame begins, a channel that has ended has ended for good. -/
theorem ended_serve {r : Rig β} {i : ChannelId} (hi : i ∈ r.controller.ended) {q : LineRequest}
    (hq : q ≠ .frame) : i ∈ (r.serve q).2.controller.ended := by
  cases q with
  | enable m =>
      show i ∈ (r.controller.enable m).ended
      unfold Controller.enable
      split <;> exact hi
  | frame => exact absurd rfl hq
  | line m => exact mem_ended_runLine.mpr (.inl hi)

/-! ### The decoder -/

theorem decoder_stepLine (running : ChannelMask) (r : Rig β) (i : ChannelId) :
    (stepLine running r i).2.controller.decoder = r.controller.decoder := by
  have hnext : r.Within (r.modifyChannel i Channel.nextLine) := ⟨_, _, rfl⟩
  have hfetched := (hnext.trans (within_fetchHeader _ i)).decoder
  rw [stepLine_eq]
  dsimp only
  split
  · split <;> exact hfetched
  · rfl

theorem decoder_prepareChannel (r : Rig β) (i : ChannelId) :
    (r.prepareChannel i).controller.decoder = r.controller.decoder := by
  by_cases hi : i ∈ r.controller.active
  · have hrewound : r.Within (r.rewound i) := ⟨_, _, rfl⟩
    have hfetched := (hrewound.trans (within_fetchHeader _ i)).decoder
    rw [prepareChannel_of_mem hi]
    dsimp only
    split <;> exact hfetched
  · rw [prepareChannel_of_notMem hi]
    rfl

/-- Lines leave the decoder alone. -/
theorem decoder_runLine (r : Rig β) (m : ChannelMask) :
    (r.runLine m).2.controller.decoder = r.controller.decoder := by
  have hsent : (r.sendLine m).controller.decoder = r.controller.decoder :=
    foldl_induction (P := fun s : Rig β => s.controller.decoder = r.controller.decoder) _
      (fun s i _ h => (within_sendInTurn s i).decoder.trans h) rfl
  have hstepped : ((r.sendLine m).stepLines m).2.controller.decoder = r.controller.decoder :=
    foldl_induction
      (P := fun s : ChannelMask × Rig β => s.2.controller.decoder = r.controller.decoder) _
      (fun s i _ h => (decoder_stepLine s.1 s.2 i).trans h) hsent
  rw [runLine_snd]
  exact hstepped

/-- Frames leave the decoder alone. -/
theorem decoder_beginFrame (r : Rig β) :
    r.beginFrame.controller.decoder = r.controller.decoder := by
  refine foldl_induction
    (P := fun s : Rig β => s.controller.decoder = r.controller.decoder) _
    (fun s i _ h => (s.decoder_prepareChannel i).trans h) (s := r.openFrame) ?_
  rw [controller_openFrame]

end Rig

/-! ### Paths -/

/-- A stop of a path: a rig, and what is asked of it next, if it is a request. -/
abbrev Stop (β : Type) : Type := Rig β × Option LineRequest

/-- The request at a stop is a frame, and the table of channel `i` ends as it begins. -/
def Rig.EndsAtOnce {β : Type} [Buses β] (i : ChannelId) (stop : Stop β) : Prop :=
  stop.2 = some .frame ∧ i ∈ stop.1.beginFrame.controller.ended

instance {β : Type} [Buses β] (i : ChannelId) : DecidablePred (Rig.EndsAtOnce (β := β) i) :=
  fun _ => inferInstanceAs (Decidable (_ ∧ _))

/-- From `r` to `r'` requests that may be asked were served, and other things done that left the
three sets alone, with these stops on the way. -/
inductive Rig.Path {β : Type} [Buses β] (Asks : Rig β → LineRequest → Prop) :
    Rig β → List (Stop β) → Rig β → Prop
  | done (r : Rig β) : Rig.Path Asks r [] r
  | aside {r r' r'' : Rig β} {stops : List (Stop β)} (sets : r.SameSets r')
      (rest : Rig.Path Asks r' stops r'') : Rig.Path Asks r stops r''
  | stop {r r' : Rig β} {stops : List (Stop β)} (rest : Rig.Path Asks r stops r') :
      Rig.Path Asks r ((r, none) :: stops) r'
  | request {r r' : Rig β} {stops : List (Stop β)} {q : LineRequest} (asks : Asks r q)
      (rest : Rig.Path Asks (r.serve q).2 stops r') : Rig.Path Asks r ((r, some q) :: stops) r'

/-- Lines are asked for the active channels. -/
def Rig.AsksActive {β : Type} (r : Rig β) : LineRequest → Prop
  | .line m => m = r.controller.active
  | _ => True

namespace Rig.Path

variable {β : Type} [Buses β] {Asks : Rig β → LineRequest → Prop} {r r' r'' : Rig β}
  {stops stops' : List (Stop β)}

theorem trans (h : Path Asks r stops r') (h' : Path Asks r' stops' r'') :
    Path Asks r (stops ++ stops') r'' := by
  induction h with
  | done r => exact h'
  | aside hsets _ ih => exact .aside hsets (ih h')
  | stop _ ih => exact .stop (ih h')
  | request hq _ ih => exact .request hq (ih h')

theorem of_sets (h : r.SameSets r') : Path Asks r [] r' := .aside h (.done r')

/-- A path that starts out consistent is so at every stop and at its end. -/
theorem consistent (h : Path Asks r stops r') (hr : r.Consistent) :
    (∀ s ∈ stops, s.1.Consistent) ∧ r'.Consistent := by
  induction h with
  | done r => exact ⟨List.forall_mem_nil _, hr⟩
  | aside hsets _ ih => exact ih (hsets.consistent hr)
  | stop _ ih =>
      obtain ⟨hstops, hend⟩ := ih hr
      exact ⟨List.forall_mem_cons.mpr ⟨hr, hstops⟩, hend⟩
  | @request _ _ _ q _ _ ih =>
      obtain ⟨hstops, hend⟩ := ih (consistent_serve hr q)
      exact ⟨List.forall_mem_cons.mpr ⟨hr, hstops⟩, hend⟩

/-- A path can be cut between any two of its stops. -/
theorem cut (h : Path Asks r stops r') {before after : List (Stop β)}
    (hstops : stops = before ++ after) :
    ∃ s, Path Asks r before s ∧ Path Asks s after r' := by
  induction h generalizing before with
  | done r =>
      obtain ⟨rfl, rfl⟩ := List.append_eq_nil_iff.mp hstops.symm
      exact ⟨r, .done r, .done r⟩
  | aside hsets _ ih =>
      obtain ⟨s, hbefore, hafter⟩ := ih hstops
      exact ⟨s, .aside hsets hbefore, hafter⟩
  | @stop r r' stops rest ih =>
      cases before with
      | nil => exact ⟨r, .done r, (show _ = after from hstops) ▸ .stop rest⟩
      | cons stop before =>
          obtain ⟨rfl, hrest⟩ := List.cons.inj hstops
          obtain ⟨s, hbefore, hafter⟩ := ih hrest
          exact ⟨s, .stop hbefore, hafter⟩
  | @request r r' stops q hq rest ih =>
      cases before with
      | nil => exact ⟨r, .done r, (show _ = after from hstops) ▸ .request hq rest⟩
      | cons stop before =>
          obtain ⟨rfl, hrest⟩ := List.cons.inj hstops
          obtain ⟨s, hbefore, hafter⟩ := ih hrest
          exact ⟨s, .request hq hbefore, hafter⟩

/-- Up to its first stop, a path leaves the sets alone; if a request stands there, it is served. -/
theorem served {s : Rig β} {q : LineRequest} {rest : List (Stop β)} (h : Path Asks r stops r')
    (hstops : stops = (s, some q) :: rest) :
    r.SameSets s ∧ Asks s q ∧ Path Asks (s.serve q).2 rest r' := by
  induction h with
  | done r => cases hstops
  | aside hsets _ ih =>
      obtain ⟨hsame, hserved⟩ := ih hstops
      exact ⟨hsets.trans hsame, hserved⟩
  | stop _ _ => cases hstops
  | request hq rest _ =>
      cases hstops
      exact ⟨.refl _, hq, rest⟩

theorem ended (h : Path Asks r stops r') {i : ChannelId} (hi : i ∈ r.controller.ended)
    (hframes : ∀ s ∈ stops, s.2 ≠ some .frame) : i ∈ r'.controller.ended := by
  induction h with
  | done r => exact hi
  | aside hsets _ ih => exact ih (hsets.ended ▸ hi) hframes
  | stop _ ih => exact ih hi (List.forall_mem_cons.mp hframes).2
  | @request _ _ _ q _ _ ih =>
      obtain ⟨hq, hrest⟩ := List.forall_mem_cons.mp hframes
      exact ih (ended_serve hi fun e => hq (congrArg some e)) hrest

/-- Once a channel has ended, it is in no line that is asked for active channels, unless a frame has
begun in between. -/
theorem ended_stays_out {before between after : List (Stop β)} {s t : Rig β} {q : LineRequest}
    {i : ChannelId} {m : ChannelMask}
    (h : Path AsksActive r (before ++ (s, some q) :: (between ++ (t, some (.line m)) :: after)) r')
    (hr : r.Consistent) (hi : i ∈ (s.serve q).2.controller.ended)
    (hframes : ∀ stop ∈ between, stop.2 ≠ some .frame) : i ∉ m := by
  obtain ⟨s', hbefore, hrest⟩ := h.cut rfl
  obtain ⟨hs, -, hserved⟩ := hrest.served rfl
  have hs' := consistent_serve (hs.consistent (hbefore.consistent hr).2) q
  obtain ⟨t', hbetween, hlast⟩ := hserved.cut rfl
  obtain ⟨ht, hm, -⟩ := hlast.served rfl
  have hended : i ∈ t.controller.ended := ht.ended ▸ hbetween.ended hi hframes
  have ht' : t.Consistent := ht.consistent (hbetween.consistent hs').2
  rw [show m = t.controller.active from hm, show t.controller.active = _ from ht',
    ChannelMask.mem_sdiff]
  exact fun hactive => hactive.2 hended

end Rig.Path

end DmaController
