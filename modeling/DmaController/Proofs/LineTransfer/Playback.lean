import DmaController.Proofs.LineTransfer.Setup
import DmaController.Proofs.LineTransfer.Units

/-! # Playing a table

A channel that plays a table stands, at the start of a line, behind some lines of an entry with
other entries to come.  `Standing` says what its registers hold then, and `linesFrom` which lines
are left to play.

In its turn the channel writes the first of these lines, then it steps on to the next line
(`Standing.nextLine`) or to the header of the next entry (`fetchHeader_entry`).  One call of
`runLine` thus plays one line (`runLine_plays`). -/

namespace DmaController

/-- The lines of a table that are left when `j` lines of the entry `e` are over and the entries
`es` are to come. -/
def linesFrom {mode : UnitMode} (e : Entry mode) (j : Nat) (es : List (Entry mode)) :
    List (List UInt8) :=
  (List.range' j (e.lines - j)).map e.line ++ expansion es

theorem expansion_cons {mode : UnitMode} (e : Entry mode) (es : List (Entry mode)) :
    expansion (e :: es) = linesFrom e 0 es := by
  rw [expansion, List.flatMap_cons, Entry.expansion, List.range_eq_range']
  rfl

theorem linesFrom_of_lt {mode : UnitMode} {e : Entry mode} {j : Nat} (es : List (Entry mode))
    (h : j + 1 < e.lines) : linesFrom e j es = e.line j :: linesFrom e (j + 1) es := by
  obtain ⟨n, hn⟩ : ∃ n, e.lines - j = n + 1 := ⟨e.lines - j - 1, by omega⟩
  have hn' : e.lines - (j + 1) = n := by omega
  rw [linesFrom, hn, List.range'_succ, List.map_cons, List.cons_append, linesFrom, hn']

theorem linesFrom_of_eq {mode : UnitMode} {e : Entry mode} {j : Nat} (es : List (Entry mode))
    (h : j + 1 = e.lines) : linesFrom e j es = e.line j :: expansion es := by
  have hn : e.lines - j = 1 := by omega
  rw [linesFrom, hn]
  rfl

theorem linesFrom_ne_nil {mode : UnitMode} {e : Entry mode} {j : Nat} (es : List (Entry mode))
    (h : j < e.lines) : linesFrom e j es ≠ [] := by
  intro hnil
  have hlen := congrArg List.length hnil
  simp only [linesFrom, List.length_append, List.length_map, List.length_range',
    List.length_nil] at hlen
  omega

/-! ### Where a channel stands -/

/-- The offset of the header behind the current entry, if `n` bytes of its data are left. -/
def Channel.tableAfter (c : Channel) (n : Nat) : UInt16 :=
  if c.control.indirect then c.table else c.table + UInt16.ofNat n

theorem Channel.SetAs.unitWrites_eq {c₀ c : Channel} (h : c₀.SetAs c) (unit : List UInt8) :
    c.unitWrites unit = c₀.unitWrites unit := by
  have hregister : c.register = c₀.register := by
    funext o
    rw [register, register, h.port_eq]
  rw [unitWrites, unitWrites, h.mode_eq, hregister]

theorem Channel.SetAs.registersClear {clear : Clearance} {c₀ c : Channel} (h : c₀.SetAs c)
    (hclear : c₀.RegistersClear clear) : c.RegistersClear clear := by
  intro o ho
  rw [h.mode_eq] at ho
  rw [register, h.port_eq]
  exact hclear o ho

/-- At the start of a line the channel, set up as `c₀`, has played `j` lines of the entry `e`; the
rest of its data lies where the channel will look for it, and so do the entries `es` to come. -/
structure Standing (M : Address → Option UInt8) (c₀ c : Channel) (e : Entry c₀.mode) (j : Nat)
    (es : List (Entry c₀.mode)) : Prop extends c₀.SetAs c where
  running : j < e.lines
  lines_eq : c.lines.toNat + j = e.lines
  repeats_eq : c.repeats = e.repeats
  pending_eq : c.pending = e.sends j
  held : Holds M c.lineBank c.lineOffset (e.rest j)
  next : Laid M c₀ (c.tableAfter (e.rest j).length) es

namespace Standing

variable {M : Address → Option UInt8} {c₀ c : Channel} {e : Entry c₀.mode} {j : Nat}
  {es : List (Entry c₀.mode)}

/-- Direct access is no part of it. -/
theorem setCache (h : Standing M c₀ c e j es) (p : Option Pointer) :
    Standing M c₀ { c with cache := p } e j es :=
  ⟨h.toSetAs.trans ⟨rfl, rfl, rfl, rfl, rfl, rfl, fun _ => rfl⟩, h.running, h.lines_eq,
    h.repeats_eq, h.pending_eq, h.held, h.next⟩

/-- What the channel has pending is the line it has come to. -/
theorem pending_line (h : Standing M c₀ c e j es) (hp : c.pending = true) :
    (e.line j).length = c.mode.size ∧ Holds M c.lineBank c.lineOffset (e.line j) := by
  have hsends : e.sends j = true := h.pending_eq ▸ hp
  refine ⟨(e.length_line hsends h.running).trans (congrArg _ h.mode_eq.symm), ?_⟩
  rw [e.line_eq, if_pos hsends]
  exact h.held.take _

/-- And if it has nothing pending, that line is empty. -/
theorem writes_eq (h : Standing M c₀ c e j es) :
    (if c.pending then c.unitWrites (e.line j) else []) = c₀.unitWrites (e.line j) := by
  rw [h.unitWrites_eq, h.pending_eq]
  split
  · rfl
  · rename_i hsends
    rw [e.line_eq, if_neg hsends, Channel.unitWrites, List.zip_nil_right]

/-- With its unit behind it, the channel has the rest of the data and of the table in front. -/
theorem afterUnit (h : Standing M c₀ c e j es) :
    Holds M c.lineBank c.afterUnit.lineOffset (e.rest (j + 1)) ∧
      Laid M c₀ (c.afterUnit.tableAfter (e.rest (j + 1)).length) es := by
  cases hp : c.pending with
  | false =>
      have hsends : e.sends j = false := h.pending_eq ▸ hp
      have hrest : e.rest (j + 1) = e.rest j := by
        rw [← e.drop_rest, e.rest_of_not_sends hsends, List.drop_nil]
      rw [Channel.afterUnit_of_not_pending hp, hrest]
      exact ⟨h.held, h.next⟩
  | true =>
      have hsends : e.sends j = true := h.pending_eq ▸ hp
      have hsize := e.size_le_rest hsends h.running
      rw [Channel.afterUnit_of_pending hp, Channel.lineOffset_passUnit, h.mode_eq, ← e.drop_rest]
      refine ⟨h.held.drop _, ?_⟩
      have htable : c.passUnit.tableAfter ((e.rest j).drop c₀.mode.size).length =
          c.tableAfter (e.rest j).length := by
        unfold Channel.tableAfter
        rw [Channel.control_passUnit]
        cases hi : c.control.indirect with
        | true => simp [Channel.passUnit, hi]
        | false =>
            have hlen :
                (e.rest j).length = c₀.mode.size + ((e.rest j).drop c₀.mode.size).length := by
              rw [List.length_drop]
              omega
            rw [if_neg Bool.false_ne_true, if_neg Bool.false_ne_true, hlen, UInt16.ofNat_add,
              ← UInt16.add_assoc]
            simp [Channel.passUnit, hi, h.mode_eq]
      rw [htable]
      exact h.next

theorem lines_toNat_sub (h : Standing M c₀ c e j es) :
    c.nextLine.lines.toNat + (j + 1) = e.lines := by
  have hlines := h.lines_eq
  have hrunning := h.running
  have hc : c.nextLine.lines = c.lines - 1 := by
    unfold Channel.nextLine Channel.afterUnit Channel.passUnit
    dsimp only
    split
    · split <;> rfl
    · rfl
  have hone : (1 : UInt8) ≤ c.lines := by
    rw [UInt8.le_iff_toNat_le]
    show 1 ≤ c.lines.toNat
    omega
  rw [hc, UInt8.toNat_sub_of_le _ _ hone]
  show c.lines.toNat - 1 + (j + 1) = e.lines
  omega

/-- While lines of the entry are left, the channel steps on to the next of them. -/
theorem nextLine (h : Standing M c₀ c e j es) (hj : j + 1 < e.lines) :
    Standing M c₀ c.nextLine e (j + 1) es := by
  obtain ⟨hheld, hnext⟩ := h.afterUnit
  have hset := Channel.SetAs.nextLine c
  have hrepeats : c.afterUnit.repeats = e.repeats := by
    rw [← h.repeats_eq]
    unfold Channel.afterUnit Channel.passUnit
    dsimp only
    split
    · split <;> rfl
    · rfl
  refine ⟨h.toSetAs.trans hset, hj, h.lines_toNat_sub, hrepeats, ?_, ?_, hnext⟩
  · show c.afterUnit.repeats = _
    rw [hrepeats, Entry.sends]
    simp
  · have hlineBank : c.nextLine.lineBank = c.lineBank := by
      rw [Channel.lineBank, Channel.lineBank, hset.control_eq, hset.bank_eq, hset.indirectBank_eq]
    rw [hlineBank]
    exact hheld

/-- Behind the last line of its entry, the channel has the rest of its table in front. -/
theorem nextLine_laid (h : Standing M c₀ c e j es) (hj : j + 1 = e.lines) :
    Laid M c₀ c.nextLine.table es := by
  have hnext := h.afterUnit.2
  rw [hj, e.rest_lines] at hnext
  unfold Channel.tableAfter at hnext
  split at hnext
  · exact hnext
  · have hzero : c.afterUnit.table + UInt16.ofNat ([] : List UInt8).length = c.afterUnit.table :=
      UInt16.add_zero _
    rw [hzero] at hnext
    exact hnext

end Standing

/-! ### Fetching a header -/

namespace Rig

variable {β : Type} [Buses β] {M : Address → Option UInt8} {clear : Clearance}
  {good : β → Prop}

section

variable (hs : SteadyBytes M clear good)

include hs

/-- A word inside a bank is read as its two bytes. -/
theorem readWord_held {bank : UInt8} {o : UInt16} {low high : UInt8} (ho : o ≠ 0xFFFF)
    (hword : Holds M bank o [low, high]) {r : Rig (Traced β)} (hg : good r.buses.inner) :
    (r.readWord (.of bank o)).1 = high.toUInt16 * 0x100 + low.toUInt16 := by
  have hb := bank.toNat_lt
  have hlt := o.toNat_lt
  have ho' : o.toNat ≠ 0xFFFF := fun e => ho (UInt16.toNat_inj.mp e)
  have hfirst : Address.of bank o % 0x1000000 = .of bank o := by
    apply UInt32.toNat_inj.mp
    rw [UInt32.toNat_mod, Address.toNat_of]
    show _ % 0x1000000 = _
    omega
  have hsecond : (Address.of bank o + 1) % 0x1000000 = .of bank (o + 1) := by
    apply UInt32.toNat_inj.mp
    rw [UInt32.toNat_mod, UInt32.toNat_add, Address.toNat_of, Address.toNat_of, UInt16.toNat_add]
    show (_ + 1) % _ % 0x1000000 = _ + (_ + 1) % _
    omega
  have hlow : M (.of bank o) = some low := by
    have := hword 0 low rfl
    rwa [show o + UInt16.ofNat 0 = o from UInt16.add_zero o] at this
  have hhigh : M (.of bank (o + 1)) = some high := hword 1 high rfl
  have hgot : (r.readWord (.of bank o)).1 =
      (Buses.read ((Address.of bank o + 1) % 0x1000000)
          (Buses.read (Address.of bank o % 0x1000000) r.buses.inner).2).1.toUInt16 * 0x100 +
        (Buses.read (Address.of bank o % 0x1000000) r.buses.inner).1.toUInt16 := rfl
  rw [hgot, hfirst, hsecond, hs.read hg hlow, hs.read (hs.good_read _ hg) hhigh]

theorem sends_readWord (a : Address) (r : Rig (Traced β)) : r.Sends good (r.readWord a).2 [] :=
  (sends_read hs (a % 0x1000000) r).trans (sends_read hs ((a + 1) % 0x1000000) _)

theorem sends_endTable (r : Rig (Traced β)) (i : ChannelId) (above : Bool) :
    r.Sends good (r.endTable i above) [] := by
  unfold endTable
  dsimp only
  split
  · generalize Address.of _ _ = a
    generalize (if above = true then 2 * slowAccess else slowAccess) = n
    have hread := sends_readWord hs a (r.spend n)
    exact ⟨hread.calls, hread.good⟩
  · exact ⟨.of_eq rfl, id⟩

theorem sends_fetchPlace (r : Rig (Traced β)) (c : Channel) :
    r.Sends good (r.fetchPlace c).2 [] := by
  unfold fetchPlace
  split
  · have hread := sends_readWord hs (.of c.bank c.table) (r.spend (2 * slowAccess))
    exact ⟨hread.calls, hread.good⟩
  · exact .refl r

theorem sends_openEntry (r : Rig (Traced β)) (i : ChannelId) (lines : UInt8) (repeats : Bool) :
    r.Sends good (r.openEntry i lines repeats) [] := by
  rw [openEntry_eq]
  have hplace := sends_fetchPlace hs r ((r.channel i).takeHeader lines repeats)
  generalize r.fetchPlace _ = placed at hplace ⊢
  have hopened := hplace.trans
    (sends_bytePointer hs (.of placed.1.lineBank placed.1.lineOffset) placed.2)
  exact ⟨hopened.calls, hopened.good⟩

/-- Fetching a header writes nothing. -/
theorem sends_fetchHeader (r : Rig (Traced β)) (i : ChannelId) :
    r.Sends good (r.fetchHeader i).2 [] := by
  rw [fetchHeader_eq]
  dsimp only
  generalize Address.of _ _ = a
  have hread : r.Sends good ((r.read a).2.spend slowAccess) [] :=
    ⟨(sends_read hs a r).calls, (sends_read hs a r).good⟩
  cases Header.ofByte (r.read a).1 with
  | stop => exact hread.trans (sends_endTable hs _ i _)
  | entry lines repeats =>
      exact hread.trans (sends_openEntry hs _ i lines repeats)

theorem sends_stepLine (running : ChannelMask) (r : Rig (Traced β)) (i : ChannelId) :
    r.Sends good (stepLine running r i).2 [] := by
  rw [stepLine_eq]
  have hstep := sends_fetchHeader hs (r.modifyChannel i Channel.nextLine) i
  dsimp only
  split
  · split
    · exact ⟨hstep.calls, hstep.good⟩
    · exact ⟨hstep.calls, hstep.good⟩
  · exact ⟨.of_eq rfl, id⟩

/-- At a zero header the table ends. -/
theorem fetchHeader_stop {r : Rig (Traced β)} {i : ChannelId} (hg : good r.buses.inner)
    (hheader : M (.of (r.channel i).bank (r.channel i).table) = some 0) :
    (r.fetchHeader i).1 = false := by
  have hread : (r.read (.of (r.channel i).bank (r.channel i).table)).1 = 0 := hs.read hg hheader
  rw [fetchHeader_eq]
  dsimp only
  rw [hread]
  rfl

/-- With a header taken over, the channel stands at the first line of the entry. -/
theorem openEntry_standing {r : Rig (Traced β)} {i : ChannelId} {c₀ : Channel}
    {e : Entry c₀.mode} {es : List (Entry c₀.mode)} (hg : good r.buses.inner)
    (hset : c₀.SetAs (r.channel i)) (hlaid : Laid M c₀ (r.channel i).table (e :: es)) :
    Standing M c₀
      ((r.openEntry i (UInt8.ofNat (Header.linesOf e.header))
        (Header.repeatsOf e.header)).channel i) e 0 es := by
  obtain ⟨-, hdata⟩ := hlaid
  have hlines : (UInt8.ofNat (Header.linesOf e.header)).toNat + 0 = e.lines := by
    have := e.lines_le
    show e.lines % 256 + 0 = e.lines
    omega
  have hsends : true = e.sends 0 := by simp [Entry.sends]
  rw [openEntry_eq]
  dsimp only
  rw [channel_setChannel, if_pos rfl]
  apply Standing.setCache
  have hset' : c₀.SetAs ((r.channel i).takeHeader (UInt8.ofNat (Header.linesOf e.header))
      (Header.repeatsOf e.header)) := hset.trans ⟨rfl, rfl, rfl, rfl, rfl, rfl, fun _ => rfl⟩
  generalize hc : (r.channel i).takeHeader (UInt8.ofNat (Header.linesOf e.header))
    (Header.repeatsOf e.header) = c at hset' ⊢
  have htable : c.table = (r.channel i).table + 1 := by rw [← hc]; rfl
  unfold fetchPlace
  cases hi : c.control.indirect with
  | true =>
      have hi₀ : c₀.control.indirect = true := hset'.control_eq ▸ hi
      rw [if_pos hi₀] at hdata
      obtain ⟨ho, low, high, hword, hheld, hnext⟩ := hdata
      rw [← htable] at ho hword
      rw [← hset'.bank_eq] at hword
      have hplace := readWord_held hs ho hword (r := r.spend (2 * slowAccess)) hg
      rw [if_pos rfl]
      dsimp only
      rw [hplace]
      have hoffset : c.table + 2 = (r.channel i).table + 3 := by
        rw [htable, UInt16.add_assoc]
        rfl
      refine ⟨hset'.trans ⟨rfl, rfl, rfl, rfl, rfl, rfl, fun hdirect => ?_⟩, e.lines_pos,
        ?_, ?_, ?_, ?_, ?_⟩
      · exact absurd hi (Bool.eq_false_iff.mp hdirect)
      · rw [← hc]
        exact hlines
      · rw [← hc]
        rfl
      · rw [← hc]
        exact hsends
      · rw [e.rest_zero, Channel.lineBank, Channel.lineOffset, if_pos hi, if_pos hi,
          hset'.indirectBank_eq]
        exact hheld
      · rw [Channel.tableAfter, if_pos hi, hoffset]
        exact hnext
  | false =>
      have hi₀ : c₀.control.indirect = false := hset'.control_eq ▸ hi
      rw [hi₀, if_neg Bool.false_ne_true, ← htable] at hdata
      obtain ⟨hheld, hnext⟩ := hdata
      rw [if_neg Bool.false_ne_true]
      refine ⟨hset', e.lines_pos, ?_, ?_, ?_, ?_, ?_⟩
      · rw [← hc]
        exact hlines
      · rw [← hc]
        rfl
      · rw [← hc]
        exact hsends
      · rw [e.rest_zero, Channel.lineBank, Channel.lineOffset, hi, if_neg Bool.false_ne_true,
          if_neg Bool.false_ne_true, hset'.bank_eq]
        exact hheld
      · rw [e.rest_zero, Channel.tableAfter, hi, if_neg Bool.false_ne_true]
        exact hnext

/-- At the header of an entry, the channel comes to stand at its first line. -/
theorem fetchHeader_entry {r : Rig (Traced β)} {i : ChannelId} {c₀ : Channel}
    {e : Entry c₀.mode} {es : List (Entry c₀.mode)} (hg : good r.buses.inner)
    (hset : c₀.SetAs (r.channel i)) (hlaid : Laid M c₀ (r.channel i).table (e :: es)) :
    (r.fetchHeader i).1 = true ∧
      Standing M c₀ ((r.fetchHeader i).2.channel i) e 0 es := by
  have hheader := hlaid.1
  rw [← hset.bank_eq] at hheader
  have hread : (r.read (.of (r.channel i).bank (r.channel i).table)).1 = e.header :=
    hs.read hg hheader
  have hg' := (sends_read hs (.of (r.channel i).bank (r.channel i).table) r).good hg
  rw [fetchHeader_eq]
  dsimp only
  rw [hread, Header.ofByte_eq e.header_ne]
  exact ⟨rfl, openEntry_standing hs hg' hset hlaid⟩

end

end Rig

/-! ### One line -/

/-- The channel, set up as `c₀`, has the lines `ls` of its table left to play. -/
def Channel.Plays (M : Address → Option UInt8) (c₀ c : Channel) (ls : List (List UInt8)) : Prop :=
  ∃ e j es, Standing M c₀ c e j es ∧ linesFrom e j es = ls

/-- At the start of a line, channel `i` has the lines `ls` left to play, and the right direct
access for the next of them, if any. -/
structure Rig.Playing {β : Type} [Buses β] (M : Address → Option UInt8) (good : β → Prop)
    (c₀ : Channel) (i : ChannelId) (ls : List (List UInt8)) (r : Rig (Traced β)) : Prop where
  steady : good r.buses.inner
  plays : c₀.Plays M (r.channel i) ls
  cached : (r.channel i).Cached (Shows M good)

namespace Rig

variable {β : Type} [Buses β] {M : Address → Option UInt8} {clear : Clearance}
  {good : β → Prop}

/-- The register writes of a turn of sending. -/
def writesInTurn (turn : Rig (Traced β) × ChannelId) : List (UInt16 × UInt8) :=
  ((turn.1.sendInTurn turn.2).buses.calls.drop turn.1.buses.calls.length).filterMap
    BusCall.written?

/-- The register writes for channel `i` when the line `m` is run. -/
def lineWrites (r : Rig (Traced β)) (m : ChannelMask) (i : ChannelId) : List (UInt16 × UInt8) :=
  (turnsFor sendInTurn m.toList (r.openLine m) i).flatMap writesInTurn

theorem writesInTurn_eq {r : Rig (Traced β)} {i : ChannelId} {ws : List (UInt16 × UInt8)}
    (h : Traced.Calls BusCall.written? r.buses (r.sendInTurn i).buses ws) :
    writesInTurn (r, i) = ws := by
  obtain ⟨calls, hcalls, hws⟩ := h
  rw [writesInTurn, hcalls, List.drop_left, hws]

variable (hs : SteadyBytes M clear good)

include hs

/-- The turns of the first round leave the memory as it is, as far as all channels spare it. -/
theorem step_sendLine {r : Rig (Traced β)} {m : ChannelMask}
    (hspares : ∀ j ∈ m, (r.channel j).Spares clear) (s : Rig (Traced β)) (j : ChannelId)
    (hj : j ∈ m.toList) (hP : good s.buses.inner ∧ r.SameSetup s) :
    good (s.sendInTurn j).buses.inner ∧ r.SameSetup (s.sendInTurn j) := by
  obtain ⟨hg, hsame⟩ := hP
  have hspare : (s.channel j).Spares clear := by
    obtain ⟨p, hp⟩ := hsame j
    rw [hp]
    exact hspares j (ChannelMask.mem_toList.mp hj)
  exact ⟨good_sendInTurn hs hg hspare, hsame.trans (recached_sendInTurn s j).sameSetup⟩

/-- The first round: the channel writes the line it has come to. -/
theorem sendLine_plays {r : Rig (Traced β)} {m : ChannelMask} {i : ChannelId} {c₀ : Channel}
    {l : List UInt8} {ls : List (List UInt8)} (hforward : c₀.control.reverse = false)
    (hclear : c₀.RegistersClear clear) (hm : i ∈ m) (hp : r.Playing M good c₀ i (l :: ls))
    (hspares : ∀ j ∈ m, j ≠ i → (r.channel j).Spares clear) :
    r.lineWrites m i = c₀.unitWrites l ∧
      good (r.sendLine m).buses.inner ∧
      c₀.Plays M ((r.sendLine m).channel i) (l :: ls) ∧
      ((r.sendLine m).channel i).afterUnit.Cached (Shows M good) := by
  obtain ⟨e, j, es, hstanding, hls⟩ := hp.plays
  have hfirst : e.line j = l := by
    by_cases hj : j + 1 < e.lines
    · rw [linesFrom_of_lt es hj] at hls
      exact (List.cons.inj hls).1
    · have hrunning := hstanding.running
      rw [linesFrom_of_eq es (by omega)] at hls
      exact (List.cons.inj hls).1
  have hforward' : (r.channel i).control.reverse = false := by
    rw [hstanding.control_eq, hforward]
  have hspares' : ∀ j ∈ m, (r.channel j).Spares clear := by
    intro j hj
    by_cases hji : j = i
    · subst hji
      intro _
      rw [if_neg (Bool.eq_false_iff.mp hforward')]
      exact hstanding.toSetAs.registersClear hclear
    · exact hspares j hj hji
  have hstep := step_sendLine hs hspares'
  have hopen : good (r.openLine m).buses.inner ∧ r.SameSetup (r.openLine m) :=
    ⟨hp.steady, .refl r⟩
  obtain ⟨s, hturns, ⟨hg, -⟩, hsame, hown⟩ := foldl_turn (v := fun s => s.channel i)
    m.nodup_toList (ChannelMask.mem_toList.mpr hm) hstep
    (fun s j _ hji _ => (recached_sendInTurn s j).channel (Ne.symm hji)) hopen
  have hchannel : s.channel i = r.channel i := hsame
  have hsent := sendInTurn_sends hs (r := s) (i := i) (u := e.line j) hg
    (by rw [hchannel]; exact hforward') (by rw [hchannel]; exact hspares' i hm)
    (by rw [hchannel]; exact hp.cached)
    (by rw [hchannel]; exact hstanding.pending_line)
  rw [hchannel, hstanding.writes_eq, hfirst] at hsent
  refine ⟨?_, (foldl_induction _ hstep hopen).1, ?_, ?_⟩
  · rw [lineWrites, hturns, List.flatMap_singleton]
    exact writesInTurn_eq hsent.calls
  · obtain ⟨p, hp⟩ := (recached_sendInTurn s i).own
    show c₀.Plays M ((m.toList.foldl sendInTurn (r.openLine m)).channel i) _
    rw [hown, hp, hchannel]
    exact ⟨e, j, es, hstanding.setCache p, hls⟩
  · show ((m.toList.foldl sendInTurn (r.openLine m)).channel i).afterUnit.Cached _
    rw [hown]
    exact cached_sendUnit hs.reaching (r := (s.setWorkRamTaken false).setCurrent i)
      (hs.good_setWorkRamTaken false hg) (by
        show (s.channel i).Cached _
        rw [hchannel]
        exact hp.cached)

/-- Stepping on, the channel has the remaining lines in front; it stops running with the last. -/
theorem stepLine_plays {running : ChannelMask} {r : Rig (Traced β)} {i : ChannelId}
    {c₀ : Channel} {l : List UInt8} {ls : List (List UInt8)} (hg : good r.buses.inner)
    (hi : i ∈ running) (hp : c₀.Plays M (r.channel i) (l :: ls)) :
    (i ∈ (stepLine running r i).1 ↔ ls ≠ []) ∧
      (ls ≠ [] → c₀.Plays M ((stepLine running r i).2.channel i) ls) := by
  obtain ⟨e, j, es, hstanding, hls⟩ := hp
  have hlines := hstanding.lines_toNat_sub
  have hown : (r.modifyChannel i Channel.nextLine).channel i = (r.channel i).nextLine := by
    rw [channel_modifyChannel, if_pos rfl]
  rw [stepLine_eq]
  dsimp only
  by_cases hj : j + 1 < e.lines
  · -- The entry has more lines.
    have hne : ¬ (r.channel i).nextLine.lines = 0 := by
      intro h0
      rw [h0] at hlines
      change 0 + (j + 1) = e.lines at hlines
      omega
    rw [linesFrom_of_lt es hj] at hls
    have hrest : linesFrom e (j + 1) es = ls := (List.cons.inj hls).2
    have hnil : ls ≠ [] := hrest ▸ linesFrom_ne_nil es hj
    rw [if_neg hne]
    refine ⟨⟨fun _ => hnil, fun _ => hi⟩, fun _ => ?_⟩
    show c₀.Plays M ((r.modifyChannel i Channel.nextLine).channel i) ls
    rw [hown]
    exact ⟨e, j + 1, es, hstanding.nextLine hj, hrest⟩
  · -- The entry is used up, and a header follows.
    have hlast : j + 1 = e.lines := by
      have := hstanding.running
      omega
    have hzero : (r.channel i).nextLine.lines = 0 := by
      apply UInt8.toNat_inj.mp
      show (r.channel i).nextLine.lines.toNat = 0
      omega
    rw [linesFrom_of_eq es hlast] at hls
    have hrest : expansion es = ls := (List.cons.inj hls).2
    have hset : c₀.SetAs ((r.modifyChannel i Channel.nextLine).channel i) := by
      rw [hown]
      exact hstanding.toSetAs.trans (.nextLine _)
    have hlaid : Laid M c₀ ((r.modifyChannel i Channel.nextLine).channel i).table es := by
      rw [hown]
      exact hstanding.nextLine_laid hlast
    rw [if_pos hzero]
    cases es with
    | nil =>
        have hheader : M (.of ((r.modifyChannel i Channel.nextLine).channel i).bank
            ((r.modifyChannel i Channel.nextLine).channel i).table) = some 0 := by
          rw [hset.bank_eq]
          exact hlaid
        have hstop := fetchHeader_stop hs (r := r.modifyChannel i Channel.nextLine) hg hheader
        have hnil : ls = [] := hrest.symm
        rw [if_neg (by rw [hstop]; exact Bool.false_ne_true)]
        refine ⟨⟨fun h => ?_, fun h => absurd hnil h⟩, fun h => absurd hnil h⟩
        rw [ChannelMask.mem_erase] at h
        exact absurd rfl h.2
    | cons e' es =>
        obtain ⟨hmore, hstanding'⟩ :=
          fetchHeader_entry hs (r := r.modifyChannel i Channel.nextLine) hg hset hlaid
        rw [expansion_cons] at hrest
        have hnil : ls ≠ [] := hrest ▸ linesFrom_ne_nil es e'.lines_pos
        rw [if_pos hmore]
        exact ⟨⟨fun _ => hnil, fun _ => hi⟩, fun _ => ⟨e', 0, es, hstanding', hrest⟩⟩

theorem step_stepLines (m : ChannelMask) (s : ChannelMask × Rig (Traced β)) (j : ChannelId)
    (_ : j ∈ m.toList) (hg : good s.2.buses.inner) :
    good (stepLine s.1 s.2 j).2.buses.inner :=
  (sends_stepLine hs s.1 s.2 j).good hg

/-- One call plays one line: the channel writes it, steps on to the next, and is said to run as
long as there is one. -/
theorem runLine_plays {r : Rig (Traced β)} {m : ChannelMask} {i : ChannelId} {c₀ : Channel}
    {l : List UInt8} {ls : List (List UInt8)} (hforward : c₀.control.reverse = false)
    (hclear : c₀.RegistersClear clear) (hm : i ∈ m) (hp : r.Playing M good c₀ i (l :: ls))
    (hspares : ∀ j ∈ m, j ≠ i → (r.channel j).Spares clear) :
    r.lineWrites m i = c₀.unitWrites l ∧ (i ∈ (r.runLine m).1 ↔ ls ≠ []) ∧
      (ls ≠ [] → (r.runLine m).2.Playing M good c₀ i ls) := by
  obtain ⟨hwrites, hg, hplays, hcached⟩ := sendLine_plays hs hforward hclear hm hp hspares
  refine ⟨hwrites, ?_⟩
  -- The second round, in which the channel comes to its turn as the first has left it.
  obtain ⟨s, -, hg', hsame, hown⟩ := foldl_turn (f := fun s j => stepLine s.1 s.2 j)
    (v := fun s => (s.2.channel i, decide (i ∈ s.1))) m.nodup_toList
    (ChannelMask.mem_toList.mpr hm) (step_stepLines hs m)
    (fun s j _ hji _ => by
      rw [(turn_stepLine s.1 s.2 j).channel (Ne.symm hji),
        decide_eq_decide.mpr (mem_stepLine_of_ne (Ne.symm hji))])
    (s := (m, r.sendLine m)) hg
  obtain ⟨hchannel, hrunning⟩ := Prod.mk.inj hsame
  obtain ⟨hchannel', hrunning'⟩ := Prod.mk.inj hown
  have hi : i ∈ s.1 := by simpa [hm] using hrunning
  rw [← hchannel] at hplays hcached
  obtain ⟨hstays, hplays'⟩ := stepLine_plays hs hg' hi hplays
  obtain ⟨hcached', -⟩ := cached_stepLine hs.reaching (m := s.1) hg' hcached
  rw [← hchannel'] at hplays' hcached'
  have hmem : i ∈ (r.runLine m).1 ↔ i ∈ (stepLine s.1 s.2 i).1 := by
    rw [runLine_fst]
    exact decide_eq_decide.mp hrunning'
  have hclose : good (r.runLine m).2.buses.inner := by
    rw [runLine_snd, buses_closeLine]
    exact hs.good_setWorkRamTaken _
      (foldl_induction _ (step_stepLines hs m) (s := (m, r.sendLine m)) hg)
  have hlast : (r.runLine m).2.channel i = ((r.sendLine m).stepLines m).2.channel i := by
    rw [runLine_snd, channel_closeLine]
  refine ⟨hmem.trans hstays, fun hne => ⟨hclose, ?_, ?_⟩⟩
  · rw [hlast]
    exact hplays' hne
  · rw [hlast]
    exact hcached'

/-- A call that is not given the channel leaves it where it is in its table. -/
theorem runLine_keeps_playing {r : Rig (Traced β)} {m : ChannelMask} {i : ChannelId}
    {c₀ : Channel} {ls : List (List UInt8)} (hm : i ∉ m) (hp : r.Playing M good c₀ i ls)
    (hspares : ∀ j ∈ m, j ≠ i → (r.channel j).Spares clear) :
    (r.runLine m).2.Playing M good c₀ i ls := by
  have hspares' : ∀ j ∈ m, (r.channel j).Spares clear :=
    fun j hj => hspares j hj fun e => hm (e ▸ hj)
  have hsent : good (r.sendLine m).buses.inner :=
    (foldl_induction _ (step_sendLine hs hspares') (s := r.openLine m)
      ⟨hp.steady, SameSetup.refl r⟩).1
  have hstepped : good ((r.sendLine m).stepLines m).2.buses.inner :=
    foldl_induction _ (step_stepLines hs m) (s := (m, r.sendLine m)) hsent
  have hchannel := channel_runLine_of_notMem (r := r) hm
  refine ⟨?_, hchannel ▸ hp.plays, hchannel ▸ hp.cached⟩
  rw [runLine_snd, buses_closeLine]
  exact hs.good_setWorkRamTaken _ hstepped

/-! ### A frame -/

theorem good_prepareChannel {r : Rig (Traced β)} (hg : good r.buses.inner) (i : ChannelId) :
    good (r.prepareChannel i).buses.inner := by
  by_cases hi : i ∈ r.controller.active
  · have hfetched := (sends_fetchHeader hs (r.rewound i) i).good hg
    rw [prepareChannel_of_mem hi]
    dsimp only
    split
    · exact hfetched
    · exact hfetched
  · rw [prepareChannel_of_notMem hi]
    exact hg

/-- A frame takes an enabled channel to the first line of its table. -/
theorem beginFrame_plays {r : Rig (Traced β)} {i : ChannelId}
    {e : Entry (r.channel i).mode} {es : List (Entry (r.channel i).mode)}
    (hg : good r.buses.inner) (henabled : i ∈ r.controller.enabled)
    (hlaid : Laid M (r.channel i) (r.channel i).address (e :: es)) :
    r.beginFrame.Playing M good (r.channel i) i (expansion (e :: es)) := by
  have hopen : good r.openFrame.buses.inner := by
    rw [buses_openFrame]
    exact hg
  have hstep : ∀ (s : Rig (Traced β)) (j : ChannelId), good s.buses.inner →
      good (s.prepareChannel j).buses.inner := fun s j h => good_prepareChannel hs h j
  obtain ⟨s, hg', hc, hactive, hlast, -⟩ := beginFrame_turn hstep hopen i
  have hi := hactive.mpr henabled
  have hrewound : (s.rewound i).channel i =
      { r.channel i with table := (r.channel i).address } := by
    rw [channel_rewound, hc]
  have hset : (r.channel i).SetAs ((s.rewound i).channel i) := by
    rw [hrewound]
    exact ⟨rfl, rfl, rfl, rfl, rfl, rfl, fun _ => rfl⟩
  have hlaid' : Laid M (r.channel i) ((s.rewound i).channel i).table (e :: es) := by
    rw [hrewound]
    exact hlaid
  obtain ⟨hmore, hstanding⟩ := fetchHeader_entry hs (r := s.rewound i) (i := i) hg' hset hlaid'
  have hcached := (cached_fetchHeader hs.reaching (r := s.rewound i) (i := i) hg').1
  rw [prepareChannel_of_mem hi] at hlast
  dsimp only at hlast
  rw [if_pos hmore] at hlast
  refine ⟨foldl_induction _ (fun s j _ => hstep s j) hopen, ?_, ?_⟩
  · rw [hlast]
    exact ⟨e, 0, es, hstanding, (expansion_cons e es).symm⟩
  · rw [hlast]
    exact hcached

end Rig

end DmaController
