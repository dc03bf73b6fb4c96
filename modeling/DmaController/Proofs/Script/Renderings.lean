import DmaController.Proofs.Script.Forms

/-! # Scripts written out

`Renders` says in how many ways commands can be written down: every command on a line of its own,
in any of its documented forms and in any layout, lines without a command wherever one likes, and
any line ended by a line feed, by a carriage return and a line feed, or by the end of the text.
Reading takes all of it back (`Renders.read_back`): what comes out are the commands in their order,
each with the number of its line.  There is something to be read, as every command that can be said
at all has words (`Command.Sayable.exists_words`). -/

namespace DmaController

open Numeral

namespace Command

/-- Whether there are words for a command: addresses have at most six digits, a count of lines fits
in 32 bits, there is a byte to be stored, and a setting has words for its name and its value. -/
def Sayable : Command → Prop
  | write a _ => a.toNat ≤ 0xFFFFFF
  | poke a bytes => a.toNat ≤ 0xFFFFFF ∧ bytes ≠ []
  | runLines n => n ≤ 0xFFFFFFFF
  | runFrame => True
  | assign name value => IsWord name.toList ∧ IsWord value.toList
  | print (.memory a) => a.toNat ≤ 0xFFFFFF
  | print _ => True
  | trace _ => True

instance : DecidablePred Sayable
  | write a _ => inferInstanceAs (Decidable (a.toNat ≤ 0xFFFFFF))
  | poke a bytes => inferInstanceAs (Decidable (a.toNat ≤ 0xFFFFFF ∧ bytes ≠ []))
  | runLines n => inferInstanceAs (Decidable (n ≤ 0xFFFFFFFF))
  | assign name value => inferInstanceAs (Decidable (IsWord name.toList ∧ IsWord value.toList))
  | print (.memory a) => inferInstanceAs (Decidable (a.toNat ≤ 0xFFFFFF))
  | runFrame | trace _ | print (.channel _) | print .lineTransfers | print .spriteAddress
  | print .activity | print .beam | print .trace => .isTrue trivial

end Command

/-- A line at the start of a text, and what follows it. -/
def StartsWith (line rest source : List Char) : Prop :=
  source = line ++ '\n' :: rest ∨ source = line ++ '\r' :: '\n' :: rest ∨
    (source = line ∧ rest = [])

/-- A text that commands are written out as; its first line has the number `n`. -/
inductive Renders : Nat → List (Located Command) → List Char → Prop
  | done {n : Nat} : Renders n [] []
  | idle {n : Nat} {cs : List (Located Command)} {line rest source : List Char}
      (hline : LaidOut [] line) (hsource : StartsWith line rest source)
      (hrest : Renders (n + 1) cs rest) : Renders n cs source
  | command {n : Nat} {c : Command} {cs : List (Located Command)} {words : List (List Char)}
      {line rest source : List Char} (hwords : Command.Documented words c)
      (hline : LaidOut words line) (hsource : StartsWith line rest source)
      (hrest : Renders (n + 1) cs rest) : Renders n (⟨n, c⟩ :: cs) source

/-! ### Every command has words -/

/-- Digits between `0` and `f` are neither blank nor the start of a comment. -/
theorem Numeral.Spells.isWord {base n : Nat} {digit? : Char → Option Nat} {digits : List Char}
    (hdigit : ∀ c d, digit? c = some d → 0x30 ≤ c.toNat ∧ c.toNat ≤ 0x66)
    (h : Spells base digit? digits n) : IsWord digits := by
  refine ⟨h.1, fun c hc => ?_⟩
  obtain ⟨d, hd⟩ := h.isDigit c hc
  obtain ⟨hfirst, hlast⟩ := hdigit c d hd
  constructor
  · simp [isBlank, blankRanges]
    omega
  · rintro rfl
    exact absurd hfirst (by decide)

theorem hexDigit?_range (c : Char) (d : Nat) (h : hexDigit? c = some d) :
    0x30 ≤ c.toNat ∧ c.toNat ≤ 0x66 := by
  have hrange : ∀ {first last : Char}, 0x30 ≤ first.toNat → last.toNat ≤ 0x66 →
      first ≤ c ∧ c ≤ last → 0x30 ≤ c.toNat ∧ c.toNat ≤ 0x66 :=
    fun hfirst hlast hc => ⟨hfirst.trans hc.1, Nat.le_trans hc.2 hlast⟩
  unfold hexDigit? at h
  split_ifs at h with hc hc hc
  · exact hrange (by decide) (by decide) hc
  · exact hrange (by decide) (by decide) hc
  · exact hrange (by decide) (by decide) hc

theorem decimalDigit?_range (c : Char) (d : Nat) (h : decimalDigit? c = some d) :
    0x30 ≤ c.toNat ∧ c.toNat ≤ 0x66 := by
  unfold decimalDigit? at h
  split_ifs at h with hc
  exact ⟨hc.1, Nat.le_trans hc.2 (by decide : '9'.toNat ≤ 0x66)⟩

theorem exists_hexWord {limit n : Nat} (hn : n ≤ limit) :
    ∃ word, IsWord word ∧ HexWord SingleMark limit word n := by
  have hdigit : ∀ d < 16, hexDigit? (Nat.digitChar d) = some d := by decide
  obtain ⟨digits, hdigits⟩ := exists_spells (by decide) hdigit n
  exact ⟨digits, hdigits.isWord hexDigit?_range, [], digits, rfl, .inl rfl, hdigits, hn⟩

theorem exists_hexBytes (bytes : List UInt8) :
    ∃ words, (∀ w ∈ words, IsWord w) ∧
      List.Forall₂ (fun w v => HexWord SingleMark 0xFF w (UInt8.toNat v)) words bytes := by
  induction bytes with
  | nil => exact ⟨[], nofun, .nil⟩
  | cons v vs ih =>
      obtain ⟨w, hw, hv⟩ := exists_hexWord (Nat.le_of_lt_succ v.toNat_lt)
      obtain ⟨ws, hws, hvs⟩ := ih
      exact ⟨w :: ws, List.forall_mem_cons.mpr ⟨hw, hws⟩, .cons hv hvs⟩

theorem isWord_channel (i : ChannelId) : IsWord ['c', 'h', Nat.digitChar i] := by
  revert i
  decide

theorem exists_topicForm {topic : Topic} (h : (Command.print topic).Sayable) :
    ∃ word, IsWord word ∧ TopicForm word topic := by
  cases topic with
  | channel i => exact ⟨_, isWord_channel i, .channel i⟩
  | memory a =>
      obtain ⟨word, hword, ha⟩ := exists_hexWord (show a.toNat ≤ 0xFFFFFF from h)
      exact ⟨_, (IsWord.append (by decide) hword).append (by decide), .memory ha⟩
  | lineTransfers => exact ⟨_, by decide, .lineTransfers⟩
  | spriteAddress => exact ⟨_, by decide, .spriteAddress⟩
  | activity => exact ⟨_, by decide, .activity⟩
  | beam => exact ⟨_, by decide, .beam⟩
  | trace => exact ⟨_, by decide, .trace⟩

theorem exists_countWord {n : Nat} (hn : n ≤ 0xFFFFFFFF) :
    ∃ word, IsWord word ∧ CountWord word n := by
  have hdigit : ∀ d < 10, decimalDigit? (Nat.digitChar d) = some d := by decide
  obtain ⟨digits, hdigits⟩ := exists_spells (by decide) hdigit n
  exact ⟨digits, hdigits.isWord decimalDigit?_range, hn, [], digits, rfl, .inl rfl, hdigits⟩

theorem Command.Sayable.exists_words {c : Command} (h : c.Sayable) :
    ∃ words, (∀ w ∈ words, IsWord w) ∧ Documented words c := by
  have hnamed : ∀ {name : String} {operands : List (List Char)}, IsWord name.toList →
      (∀ w ∈ operands, IsWord w) → ∀ w ∈ name.toList :: operands, IsWord w :=
    fun hname hoperands => List.forall_mem_cons.mpr ⟨hname, hoperands⟩
  cases c with
  | write a v =>
      obtain ⟨aw, haw, ha⟩ := exists_hexWord (show a.toNat ≤ 0xFFFFFF from h)
      obtain ⟨vw, hvw, hv⟩ := exists_hexWord (Nat.le_of_lt_succ v.toNat_lt)
      exact ⟨_, hnamed (by decide) (by simp [haw, hvw]), .write ha hv⟩
  | poke a bytes =>
      obtain ⟨aw, haw, ha⟩ := exists_hexWord h.1
      obtain ⟨vws, hvws, hbytes⟩ := exists_hexBytes bytes
      have hsome : vws ≠ [] := by
        rintro rfl
        exact h.2 (List.forall₂_nil_left_iff.mp hbytes)
      exact ⟨_, hnamed (by decide) (List.forall_mem_cons.mpr ⟨haw, hvws⟩), .poke hsome ha hbytes⟩
  | runLines n =>
      obtain ⟨word, hword, hn⟩ := exists_countWord h
      exact ⟨_, hnamed (by decide) (by simp [hword]), .lines hn⟩
  | runFrame => exact ⟨["frame".toList], by decide, .frame rfl⟩
  | assign name value =>
      have hset : Documented ["set".toList, name.toList, value.toList] (.assign
          (String.ofList name.toList) (String.ofList value.toList)) := .set _ _
      rw [String.ofList_toList, String.ofList_toList] at hset
      exact ⟨_, hnamed (by decide) (by simp [h.1, h.2]), hset⟩
  | print topic =>
      obtain ⟨word, hword, htopic⟩ := exists_topicForm h
      exact ⟨_, hnamed (by decide) (by simp [hword]), .print htopic⟩
  | trace on =>
      cases on with
      | true => exact ⟨_, by decide, .traceOn⟩
      | false => exact ⟨_, by decide, .traceOff⟩

theorem exists_renders {commands : List Command} (h : ∀ c ∈ commands, c.Sayable) (n : Nat) :
    ∃ located source, located.map Located.value = commands ∧ Renders n located source := by
  induction commands generalizing n with
  | nil => exact ⟨[], [], rfl, .done⟩
  | cons c cs ih =>
      obtain ⟨hc, hcs⟩ := List.forall_mem_cons.mp h
      obtain ⟨located, rest, hvalues, hrest⟩ := ih hcs (n + 1)
      obtain ⟨words, hwords, hform⟩ := hc.exists_words
      obtain ⟨body, hbody⟩ := Spaced.exists_body hwords
      have hline : LaidOut words body :=
        ⟨[], body, [], [], by simp, nofun, hbody, nofun, .inl rfl⟩
      exact ⟨⟨n, c⟩ :: located, _, by rw [List.map_cons, hvalues],
        .command hform hline (.inl rfl) hrest⟩

/-! ### Reading back -/

theorem Command.Documented.exists_cons {words : List (List Char)} {c : Command}
    (h : Documented words c) : ∃ name operands, words = name :: operands := by
  cases h <;> exact ⟨_, _, rfl⟩

theorem LaidOut.ne_nil {w : List Char} {words : List (List Char)} {line : List Char}
    (h : LaidOut (w :: words) line) : line ≠ [] := by
  obtain ⟨lead, body, trail, comment, rfl, -, hbody, -⟩ := h
  simp [hbody.ne_nil]

/-- The first line of a text comes off, unless the text has ended. -/
theorem StartsWith.splitLines_eq {words : List (List Char)} {line rest source : List Char}
    (hsource : StartsWith line rest source) (hline : LaidOut words line) :
    (∃ line', splitLines source = line' :: splitLines rest ∧ LaidOut words line') ∨
      (line = [] ∧ source = [] ∧ rest = []) := by
  rcases hsource with rfl | rfl | ⟨rfl, rfl⟩
  · exact .inl ⟨line, splitLines_append hline.notMem_lineFeed rest, hline⟩
  · have hreturn := hline.append_return
    have happend := splitLines_append hreturn.notMem_lineFeed rest
    rw [List.append_assoc] at happend
    exact .inl ⟨_, happend, hreturn⟩
  · by_cases hnil : source = []
    · exact .inr ⟨hnil, hnil, rfl⟩
    · exact .inl ⟨source, splitLines_last hline.notMem_lineFeed hnil, hline⟩

/-- Reading takes a rendering back, and finds each command on the line that it was put on. -/
theorem Renders.read_back {n : Nat} {located : List (Located Command)} {source : List Char}
    (h : Renders n located source) :
    Script.readLines n (splitLines source) = .ok located ∧
      ∀ c ∈ located, ∃ line words, OnLine n (splitLines source) c.line line ∧
        LaidOut words line ∧ Command.Documented words c.value := by
  -- along the rendering: its first line is the first one that is read, under the same number
  induction h with
  | done => exact ⟨rfl, nofun⟩
  | @idle n cs line rest source hline hsource hrest ih =>
      obtain ⟨hread, hlines⟩ := ih
      rcases hsource.splitLines_eq hline with ⟨line', hsplit, hline'⟩ | ⟨-, rfl, rfl⟩
      · rw [hsplit, Script.readLines_cons, if_pos hline'.wordsIn_code]
        refine ⟨hread, fun c hc => ?_⟩
        obtain ⟨l, words, hon, hl⟩ := hlines c hc
        exact ⟨l, words, hon.later line', hl⟩
      -- an empty line at the end of the text is no line, and nothing is left to be read
      · cases hread
        exact ⟨rfl, nofun⟩
  | @command n c cs words line rest source hwords hline hsource hrest ih =>
      obtain ⟨hread, hlines⟩ := ih
      obtain ⟨name, operands, rfl⟩ := hwords.exists_cons
      rcases hsource.splitLines_eq hline with ⟨line', hsplit, hline'⟩ | ⟨hnil, -⟩
      · have hcommand : Command.readLine (Script.code line') = .ok c := by
          rw [Command.readLine_eq_ok_iff, hline'.wordsIn_code]
          exact hwords.accepted
        have hsome : Command.wordsIn (Script.code line') ≠ [] := by
          rw [hline'.wordsIn_code]
          exact List.cons_ne_nil _ _
        rw [hsplit, Script.readLines_cons, if_neg hsome, hcommand]
        refine ⟨map_eq_ok_iff.mpr ⟨cs, hread, rfl⟩, List.forall_mem_cons.mpr ⟨?_, fun c' hc' => ?_⟩⟩
        · exact ⟨line', _, OnLine.first n line' _, hline', hwords⟩
        · obtain ⟨l, words, hon, hl⟩ := hlines c' hc'
          exact ⟨l, words, hon.later line', hl⟩
      · exact absurd hnil hline.ne_nil

/-- Commands that can be said can be written out, and of every way of writing them out the reading
returns them, in their order, each with the number of the line that it is on. -/
theorem Script.read_renderings (commands : List Command)
    (hcommands : ∀ c ∈ commands, c.Sayable) :
    (∃ located source, located.map Located.value = commands ∧ Renders 1 located source) ∧
    ∀ located source, located.map Located.value = commands →
      Renders 1 located (String.toList source) →
        Script.read source = .ok ⟨located⟩ ∧
        ∀ c ∈ located, ∃ line words, OnLine 1 (splitLines source.toList) c.line line ∧
          LaidOut words line ∧ Command.Documented words c.value := by
  refine ⟨exists_renders hcommands 1, fun located source _ hsource => ?_⟩
  obtain ⟨hread, hlines⟩ := hsource.read_back
  exact ⟨map_eq_ok_iff.mpr ⟨located, hread, rfl⟩, hlines⟩

/-! A script of three commands, with a tab between words, a comment behind a command and on a line
of its own, an empty line, a carriage return and no end to the last line. -/

def threeCommands : List (Located Command) :=
  [⟨1, .write 0x4300 0x1A⟩, ⟨4, .assign "sdd1" "on"⟩, ⟨5, .runFrame⟩]

def threeCommandsText : String := " w\t $04300 0x1a # go\r\n\n  # note\nset sdd1 on\n\tframe"

theorem threeCommands_rendered : Renders 1 threeCommands threeCommandsText.toList := by
  have haddress : HexWord SingleMark 0xFFFFFF "$04300".toList 0x4300 :=
    ⟨"$".toList, "04300".toList, rfl, .inr (.inr rfl),
      ⟨by decide, [0, 4, 3, 0, 0], rfl, rfl⟩, by decide⟩
  have hbyte : HexWord SingleMark 0xFF "0x1a".toList 0x1A :=
    ⟨"0x".toList, "1a".toList, rfl, .inr (.inl rfl), ⟨by decide, [1, 10], rfl, rfl⟩, by decide⟩
  have hwrite : LaidOut ["w".toList, "$04300".toList, "0x1a".toList]
      " w\t $04300 0x1a # go".toList :=
    ⟨" ".toList, "w\t $04300 0x1a".toList, " ".toList, "# go".toList, rfl, by decide,
      .next (by decide) (List.cons_ne_nil '\t' [' ']) (List.all_eq_true.mp rfl)
        (.space (by decide) (.last (by decide))),
      by decide, .inr ⟨" go".toList, rfl, by decide⟩⟩
  have hempty : LaidOut [] "".toList := ⟨[], [], [], [], rfl, nofun, .none, nofun, .inl rfl⟩
  have hnote : LaidOut [] "  # note".toList :=
    ⟨"  ".toList, [], [], "# note".toList, rfl, by decide, .none, nofun,
      .inr ⟨" note".toList, rfl, by decide⟩⟩
  have hset : LaidOut ["set".toList, "sdd1".toList, "on".toList] "set sdd1 on".toList :=
    ⟨[], "set sdd1 on".toList, [], [], rfl, nofun,
      .space (by decide) (.space (by decide) (.last (by decide))), nofun, .inl rfl⟩
  have hframe : LaidOut ["frame".toList] "\tframe".toList :=
    ⟨"\t".toList, "frame".toList, [], [], rfl, by decide, .last (by decide), nofun, .inl rfl⟩
  exact .command (.write haddress hbyte) hwrite (.inr (.inl rfl))
    (.idle hempty (.inl rfl)
      (.idle hnote (.inl rfl)
        (.command (.set _ _) hset (.inl rfl)
          (.command (.frame rfl) hframe (.inr (.inr ⟨rfl, rfl⟩)) .done))))

theorem threeCommands_read_back :
    (∀ c ∈ threeCommands.map Located.value, c.Sayable) ∧
    Renders 1 threeCommands threeCommandsText.toList ∧
    Script.read threeCommandsText = .ok ⟨threeCommands⟩ := by
  have hsayable : ∀ c ∈ threeCommands.map Located.value, c.Sayable := by decide
  exact ⟨hsayable, threeCommands_rendered,
    ((Script.read_renderings _ hsayable).2 _ _ rfl threeCommands_rendered).1⟩

end DmaController
