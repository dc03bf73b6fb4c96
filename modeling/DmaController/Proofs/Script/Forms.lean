import Mathlib.Data.List.Forall2
import DmaController.Proofs.Script.Numerals
import DmaController.Proofs.Script.Words

/-! # The forms of commands

`Command.Form` is the language of the scripts as a table: for every command the words it is written
as.  Two things about it are left open, what may stand in front of the digits of a number in base
sixteen, and which words may follow `frame`.  The *documented* language has at most one prefix
there, and no word.  What is *accepted* is wider (`Command.readLine_eq_ok_iff`): any number of `0x`,
then of `$`, then a plus sign, and any words after `frame`.  Between the two lies just what
`Command.Tidy` rules out (`Command.Documented.tidy`, `Command.Accepted.documented`). -/

namespace DmaController

open Numeral

/-- A word for a number up to `limit` in base sixteen, with a mark in front of the digits. -/
def HexWord (Mark : List Char → Prop) (limit : Nat) (word : List Char) (n : Nat) : Prop :=
  ∃ mark digits, word = mark ++ digits ∧ Mark mark ∧ Spells 16 hexDigit? digits n ∧ n ≤ limit

/-- A word for the number of lines to idle: decimal digits, behind a plus sign or not, as the
language leaves this open. -/
def CountWord (word : List Char) (n : Nat) : Prop :=
  n ≤ 0xFFFFFFFF ∧ ∃ sign digits, word = sign ++ digits ∧ IsSign sign ∧
    Spells 10 decimalDigit? digits n

/-- The words for what can be printed. -/
inductive TopicForm : List Char → Topic → Prop
  | channel (i : ChannelId) : TopicForm ['c', 'h', Nat.digitChar i] (.channel i)
  | memory {word : List Char} {a : Address} (ha : HexWord SingleMark 0xFFFFFF word a.toNat) :
      TopicForm ("mem[".toList ++ word ++ [']']) (.memory a)
  | lineTransfers : TopicForm "hdma".toList .lineTransfers
  | spriteAddress : TopicForm "oam".toList .spriteAddress
  | activity : TopicForm "flags".toList .activity
  | beam : TopicForm "clock".toList .beam
  | trace : TopicForm "trace".toList .trace

namespace Command

/-- The words for commands, given the marks of numbers in base sixteen and the words that may
follow `frame`. -/
inductive Form (Mark : List Char → Prop) (Spare : List (List Char) → Prop) :
    List (List Char) → Command → Prop
  | write {aw vw : List Char} {a : Address} {v : UInt8} (ha : HexWord Mark 0xFFFFFF aw a.toNat)
      (hv : HexWord Mark 0xFF vw v.toNat) : Form Mark Spare ["w".toList, aw, vw] (.write a v)
  | poke {aw : List Char} {vws : List (List Char)} {a : Address} {bytes : List UInt8}
      (hsome : vws ≠ []) (ha : HexWord Mark 0xFFFFFF aw a.toNat)
      (hbytes : List.Forall₂ (fun vw v => HexWord Mark 0xFF vw (UInt8.toNat v)) vws bytes) :
      Form Mark Spare ("poke".toList :: aw :: vws) (.poke a bytes)
  | start {mw : List Char} {m : UInt8} (hm : HexWord Mark 0xFF mw m.toNat) :
      Form Mark Spare ["dma".toList, mw] (.write 0x420B m)
  | lines {nw : List Char} {n : Nat} (hn : CountWord nw n) :
      Form Mark Spare ["lines".toList, nw] (.runLines n)
  | frame {spare : List (List Char)} (hspare : Spare spare) :
      Form Mark Spare ("frame".toList :: spare) .runFrame
  | set (name value : List Char) :
      Form Mark Spare ["set".toList, name, value]
        (.assign (String.ofList name) (String.ofList value))
  | print {tw : List Char} {topic : Topic} (htopic : TopicForm tw topic) :
      Form Mark Spare ["p".toList, tw] (.print topic)
  | traceOn : Form Mark Spare ["trace".toList, "on".toList] (.trace true)
  | traceOff : Form Mark Spare ["trace".toList, "off".toList] (.trace false)

/-- The language as it is described. -/
def Documented : List (List Char) → Command → Prop := Form SingleMark (· = [])

/-- The language as it is read. -/
def Accepted : List (List Char) → Command → Prop := Form AnyMarks fun _ => True

/-- The operands that are numbers in base sixteen. -/
def hexOperands : List (List Char) → List (List Char)
  | [] => []
  | name :: operands =>
    if name = "w".toList ∨ name = "poke".toList ∨ name = "dma".toList then operands else []

/-- Nothing after `frame`, and no number in base sixteen with a sign or more than one prefix. -/
def Tidy (words : List (List Char)) : Prop :=
  (words.head? = some "frame".toList → words = ["frame".toList]) ∧ ∀ w ∈ hexOperands words, Plain w

instance (words : List (List Char)) : Decidable (Tidy words) := inferInstanceAs (Decidable (_ ∧ _))

end Command

/-! ### Operands -/

theorem readUpTo_eq_ok_iff {limit n : Nat} {wrong : String → CommandError} {word : List Char} :
    readUpTo limit wrong word = .ok n ↔ HexWord AnyMarks limit word n := by
  constructor
  · intro h
    unfold readUpTo at h
    split at h
    · rename_i k hk
      split at h
      · rename_i hle
        cases h
        obtain ⟨mark, digits, hword, hmark, hdigits⟩ := readHex_eq_some_iff.mp hk
        exact ⟨mark, digits, hword, hmark, hdigits, hle⟩
      · cases h
    · cases h
  · rintro ⟨mark, digits, hword, hmark, hdigits, hle⟩
    rw [readUpTo, readHex_eq_some_iff.mpr ⟨mark, digits, hword, hmark, hdigits⟩]
    exact if_pos hle

theorem readByte_eq_ok_iff {word : List Char} {v : UInt8} :
    readByte word = .ok v ↔ HexWord AnyMarks 0xFF word v.toNat := by
  rw [readByte, map_eq_ok_iff]
  constructor
  · rintro ⟨n, hn, rfl⟩
    have hword := readUpTo_eq_ok_iff.mp hn
    obtain ⟨-, -, -, -, -, hle⟩ := id hword
    rwa [UInt8.toNat_ofNat_of_lt' (by simpa using Nat.lt_succ_of_le hle)]
  · intro h
    exact ⟨v.toNat, readUpTo_eq_ok_iff.mpr h, UInt8.ofNat_toNat⟩

theorem readAddress_eq_ok_iff {word : List Char} {a : Address} :
    readAddress word = .ok a ↔ HexWord AnyMarks 0xFFFFFF word a.toNat := by
  rw [readAddress, map_eq_ok_iff]
  constructor
  · rintro ⟨n, hn, rfl⟩
    have hword := readUpTo_eq_ok_iff.mp hn
    obtain ⟨-, -, -, -, -, hle⟩ := id hword
    rwa [UInt32.toNat_ofNat_of_lt' (by simp [UInt32.size]; omega)]
  · intro h
    exact ⟨a.toNat, readUpTo_eq_ok_iff.mpr h, UInt32.ofNat_toNat⟩

theorem readBytes_eq_ok_iff {words : List (List Char)} {bytes : List UInt8} :
    readBytes words = .ok bytes ↔
      List.Forall₂ (fun w v => HexWord AnyMarks 0xFF w (UInt8.toNat v)) words bytes := by
  induction words generalizing bytes with
  | nil =>
      constructor
      · intro h
        cases h
        exact .nil
      · rintro ⟨⟩
        rfl
  | cons w ws ih =>
      constructor
      · intro h
        unfold readBytes at h
        split at h
        · cases h
        · rename_i v hv
          obtain ⟨vs, hvs, rfl⟩ := map_eq_ok_iff.mp h
          exact .cons (readByte_eq_ok_iff.mp hv) (ih.mp hvs)
      · rintro (- | ⟨hv, hvs⟩)
        rw [readBytes, readByte_eq_ok_iff.mpr hv]
        exact map_eq_ok_iff.mpr ⟨_, ih.mpr hvs, rfl⟩

/-! ### What is printed -/

namespace Topic

theorem channel?_digitChar (i : ChannelId) : channel? ['c', 'h', Nat.digitChar i] = some i := by
  revert i
  decide

theorem channel?_eq_some_iff {word : List Char} {i : ChannelId} :
    channel? word = some i ↔ word = ['c', 'h', Nat.digitChar i] := by
  constructor
  · intro h
    unfold channel? at h
    split at h
    · rename_i d
      split at h
      · rename_i hd
        cases h
        have hfirst : 48 ≤ d.toNat := hd.1
        have hlast : d.toNat ≤ 55 := hd.2
        have hdigit : (channelNumber (d.toNat - '0'.toNat)).val = d.toNat - 48 :=
          Nat.mod_eq_of_lt (by simp; omega)
        have hd : Nat.digitChar (d.toNat - 48) = d := by
          apply Char.toNat_inj.mp
          rw [Nat.toNat_digitChar_of_lt_ten (by omega)]
          omega
        rw [hdigit, hd]
      · cases h
    · cases h
  · rintro rfl
    exact channel?_digitChar i

theorem dropOnePrefix_append {mark digits : List Char} {n : Nat} (hmark : SingleMark mark)
    (h : Spells 16 hexDigit? digits n) : dropOnePrefix (mark ++ digits) = digits := by
  rcases hmark with rfl | rfl | rfl
  · rw [List.nil_append]
    unfold dropOnePrefix
    split
    · exact absurd (by simp) (h.notMem_mark (.inl rfl))
    · exact absurd (by simp) (h.notMem_mark (.inr (.inl rfl)))
    · rfl
  · rfl
  · rfl

theorem dropOnePrefix_eq (cs : List Char) :
    ∃ mark, SingleMark mark ∧ cs = mark ++ dropOnePrefix cs := by
  unfold dropOnePrefix
  split
  · exact ⟨['0', 'x'], .inr (.inl rfl), rfl⟩
  · exact ⟨['$'], .inr (.inr rfl), rfl⟩
  · exact ⟨[], .inl rfl, rfl⟩

theorem isNumeral_iff {cs : List Char} :
    isNumeral cs = true ↔
      ∃ mark digits n, cs = mark ++ digits ∧ SingleMark mark ∧ Spells 16 hexDigit? digits n := by
  have hdigits : isNumeral cs = true ↔ ∃ n, Spells 16 hexDigit? (dropOnePrefix cs) n := by
    rw [exists_spells_iff]
    simp [isNumeral]
  rw [hdigits]
  constructor
  · rintro ⟨n, hn⟩
    obtain ⟨mark, hmark, hcs⟩ := dropOnePrefix_eq cs
    exact ⟨mark, _, n, hcs, hmark, hn⟩
  · rintro ⟨mark, digits, n, rfl, hmark, hn⟩
    exact ⟨n, by rwa [dropOnePrefix_append hmark hn]⟩

theorem memoryOperand?_eq_some_iff {word operand : List Char} :
    memoryOperand? word = some operand ↔
      word = "mem[".toList ++ operand ++ [']'] ∧ isNumeral operand = true := by
  constructor
  · intro h
    unfold memoryOperand? at h
    split at h
    · rename_i cs
      split at h
      · rename_i hlast
        split at h
        · rename_i hnumeral
          cases h
          exact ⟨by simp [List.dropLast_append_getLast?, hlast], hnumeral⟩
        · cases h
      · cases h
    · cases h
  · rintro ⟨rfl, hnumeral⟩
    simp [memoryOperand?, hnumeral]

/-- The operand in brackets is one that has been looked at, so it is read as it stands. -/
theorem readAddress_iff_of_isNumeral {operand : List Char} {a : Address} :
    isNumeral operand = true ∧ readAddress operand = .ok a ↔
      HexWord SingleMark 0xFFFFFF operand a.toNat := by
  rw [readAddress_eq_ok_iff]
  constructor
  · rintro ⟨hnumeral, hword⟩
    obtain ⟨mark, digits, n, rfl, hmark, hn⟩ := isNumeral_iff.mp hnumeral
    obtain ⟨mark', digits', hwhole, hmark', hn', hle⟩ := hword
    have hsame : n = a.toNat :=
      Option.some.inj ((readHex_eq_some_iff.mpr ⟨mark, digits, rfl, hmark.anyMarks, hn⟩).symm.trans
        (readHex_eq_some_iff.mpr ⟨mark', digits', hwhole, hmark', hn'⟩))
    exact ⟨mark, digits, rfl, hmark, hsame ▸ hn, hle⟩
  · rintro ⟨mark, digits, rfl, hmark, hn, hle⟩
    exact ⟨isNumeral_iff.mpr ⟨mark, digits, _, rfl, hmark, hn⟩,
      mark, digits, rfl, hmark.anyMarks, hn, hle⟩

theorem read_eq_ok_iff {word : List Char} {topic : Topic} :
    read word = .ok topic ↔ TopicForm word topic := by
  constructor
  · intro h
    unfold read at h
    split_ifs at h with h₁ h₂ h₃ h₄ h₅
    · cases h; exact h₁ ▸ .lineTransfers
    · cases h; exact h₂ ▸ .spriteAddress
    · cases h; exact h₃ ▸ .activity
    · cases h; exact h₄ ▸ .beam
    · cases h; exact h₅ ▸ .trace
    · split at h
      · rename_i i hi
        cases h
        exact channel?_eq_some_iff.mp hi ▸ .channel i
      · split at h
        · rename_i operand hoperand
          obtain ⟨rfl, hnumeral⟩ := memoryOperand?_eq_some_iff.mp hoperand
          obtain ⟨a, ha, rfl⟩ := map_eq_ok_iff.mp h
          exact .memory (readAddress_iff_of_isNumeral.mp ⟨hnumeral, ha⟩)
        · cases h
  · intro h
    cases h with
    | channel i =>
        revert i
        decide
    | @memory operand a hword =>
        obtain ⟨hnumeral, ha⟩ := readAddress_iff_of_isNumeral.mpr hword
        have hoperand := memoryOperand?_eq_some_iff.mpr ⟨rfl, hnumeral⟩
        have hchannel : channel? ("mem[".toList ++ operand ++ [']']) = none := rfl
        unfold read
        simp only [hoperand, hchannel]
        rw [if_neg (by simp), if_neg (by simp), if_neg (by simp), if_neg (by simp),
          if_neg (by simp)]
        exact map_eq_ok_iff.mpr ⟨a, ha, rfl⟩
    | lineTransfers | spriteAddress | activity | beam | trace => rfl

end Topic

/-! ### Commands -/

namespace Command

theorem read_toList (name : String) (operands : List (List Char)) :
    read name.toList operands =
      (readOperands? name operands).getD (.error (.unknownCommand name)) := by
  rw [read, String.ofList_toList]

theorem read_eq_ok_iff {name : List Char} {operands : List (List Char)} {c : Command} :
    read name operands = .ok c ↔ Accepted (name :: operands) c := by
  constructor
  · intro h
    -- the name as a string, so that the table of commands can be taken apart by its literals
    rw [← String.toList_ofList (l := name), read_toList] at h
    rw [← String.toList_ofList (l := name)]
    generalize String.ofList name = name at h
    unfold readOperands? at h
    split at h
    · obtain ⟨a, ha, h⟩ := bind_eq_ok_iff.mp h
      obtain ⟨v, hv, h⟩ := bind_eq_ok_iff.mp h
      cases h
      exact .write (readAddress_eq_ok_iff.mp ha) (readByte_eq_ok_iff.mp hv)
    · obtain ⟨a, ha, h⟩ := bind_eq_ok_iff.mp h
      obtain ⟨bytes, hbytes, h⟩ := bind_eq_ok_iff.mp h
      cases h
      exact .poke (List.cons_ne_nil _ _) (readAddress_eq_ok_iff.mp ha)
        (readBytes_eq_ok_iff.mp hbytes)
    · obtain ⟨m, hm, rfl⟩ := map_eq_ok_iff.mp h
      exact .start (readByte_eq_ok_iff.mp hm)
    · obtain ⟨n, hn, rfl⟩ := map_eq_ok_iff.mp h
      exact .lines (readNat32_eq_ok_iff.mp (mapError_eq_ok_iff.mp hn))
    · cases h
      exact .frame trivial
    · cases h
      exact .set _ _
    · obtain ⟨topic, htopic, rfl⟩ := map_eq_ok_iff.mp h
      exact .print (Topic.read_eq_ok_iff.mp htopic)
    · obtain ⟨on, hon, rfl⟩ := map_eq_ok_iff.mp h
      unfold readSwitch at hon
      split_ifs at hon with hword hword
      · cases hon
        exact hword ▸ .traceOn
      · cases hon
        exact hword ▸ .traceOff
    · cases h
  · intro h
    cases h with
    | write ha hv =>
        rw [read_toList, readOperands?, readAddress_eq_ok_iff.mpr ha, readByte_eq_ok_iff.mpr hv]
        rfl
    | @poke aw vws a bytes hsome ha hbytes =>
        obtain ⟨vw, vws, rfl⟩ := List.exists_cons_of_ne_nil hsome
        rw [read_toList, readOperands?, readAddress_eq_ok_iff.mpr ha,
          readBytes_eq_ok_iff.mpr hbytes]
        rfl
    | start hm =>
        rw [read_toList, readOperands?, readByte_eq_ok_iff.mpr hm]
        rfl
    | lines hn =>
        rw [read_toList, readOperands?, readNat32_eq_ok_iff.mpr hn]
        rfl
    | frame => rfl
    | set => rfl
    | print htopic =>
        rw [read_toList, readOperands?, Topic.read_eq_ok_iff.mpr htopic]
        rfl
    | traceOn => rfl
    | traceOff => rfl

theorem readLine_eq_ok_iff {code : List Char} {c : Command} :
    readLine code = .ok c ↔ Accepted (wordsIn code) c := by
  unfold readLine
  split
  · rename_i hwords
    rw [hwords]
    exact ⟨nofun, nofun⟩
  · rename_i name operands hwords
    rw [hwords, read_eq_ok_iff]

/-! ### What is accepted and not described -/

theorem hexWord_singleMark_iff {limit n : Nat} {word : List Char} :
    HexWord SingleMark limit word n ↔ Plain word ∧ HexWord AnyMarks limit word n := by
  constructor
  · rintro ⟨mark, digits, rfl, hmark, hdigits, hle⟩
    obtain ⟨hany, hplain⟩ := singleMark_iff.mp hmark
    exact ⟨(hdigits.plain_append mark).mpr hplain, mark, digits, rfl, hany, hdigits, hle⟩
  · rintro ⟨hplain, mark, digits, rfl, hmark, hdigits, hle⟩
    exact ⟨mark, digits, rfl, singleMark_iff.mpr ⟨hmark, (hdigits.plain_append mark).mp hplain⟩,
      hdigits, hle⟩

theorem hexBytes_singleMark_iff {words : List (List Char)} {bytes : List UInt8} :
    List.Forall₂ (fun w v => HexWord SingleMark 0xFF w (UInt8.toNat v)) words bytes ↔
      (∀ w ∈ words, Plain w) ∧
        List.Forall₂ (fun w v => HexWord AnyMarks 0xFF w (UInt8.toNat v)) words bytes := by
  simp only [hexWord_singleMark_iff, List.forall₂_and_left]

theorem Documented.tidy {words : List (List Char)} {c : Command} (h : Documented words c) :
    Tidy words := by
  have hnotFrame : ∀ {name : String} {operands : List (List Char)}, name ≠ "frame" →
      (name.toList :: operands).head? = some "frame".toList →
        name.toList :: operands = ["frame".toList] :=
    fun hname hhead => absurd (String.toList_inj.mp (Option.some.inj hhead)) hname
  cases h with
  | write ha hv =>
      have hplain := List.forall_mem_cons.mpr ⟨(hexWord_singleMark_iff.mp ha).1,
        List.forall_mem_singleton.mpr (hexWord_singleMark_iff.mp hv).1⟩
      exact ⟨hnotFrame (by decide), hplain⟩
  | poke hsome ha hbytes =>
      have hplain := List.forall_mem_cons.mpr
        ⟨(hexWord_singleMark_iff.mp ha).1, (hexBytes_singleMark_iff.mp hbytes).1⟩
      exact ⟨hnotFrame (by decide), hplain⟩
  | start hm =>
      exact ⟨hnotFrame (by decide), List.forall_mem_singleton.mpr (hexWord_singleMark_iff.mp hm).1⟩
  | frame hspare =>
      subst hspare
      exact ⟨fun _ => rfl, nofun⟩
  | lines | set | print | traceOn | traceOff => exact ⟨hnotFrame (by decide), nofun⟩

theorem Documented.accepted {words : List (List Char)} {c : Command} (h : Documented words c) :
    Accepted words c := by
  cases h with
  | write ha hv => exact .write (hexWord_singleMark_iff.mp ha).2 (hexWord_singleMark_iff.mp hv).2
  | poke hsome ha hbytes =>
      exact .poke hsome (hexWord_singleMark_iff.mp ha).2 (hexBytes_singleMark_iff.mp hbytes).2
  | start hm => exact .start (hexWord_singleMark_iff.mp hm).2
  | lines hn => exact .lines hn
  | frame => exact .frame trivial
  | set name value => exact .set name value
  | print htopic => exact .print htopic
  | traceOn => exact .traceOn
  | traceOff => exact .traceOff

theorem Accepted.documented {words : List (List Char)} {c : Command} (h : Accepted words c)
    (htidy : Tidy words) : Documented words c := by
  obtain ⟨hframe, hplain⟩ := htidy
  cases h with
  | write ha hv =>
      obtain ⟨hplainA, hplainV⟩ := List.forall_mem_cons.mp hplain
      exact .write (hexWord_singleMark_iff.mpr ⟨hplainA, ha⟩)
        (hexWord_singleMark_iff.mpr ⟨List.forall_mem_singleton.mp hplainV, hv⟩)
  | poke hsome ha hbytes =>
      obtain ⟨hplainA, hplainBytes⟩ := List.forall_mem_cons.mp hplain
      exact .poke hsome (hexWord_singleMark_iff.mpr ⟨hplainA, ha⟩)
        (hexBytes_singleMark_iff.mpr ⟨hplainBytes, hbytes⟩)
  | start hm =>
      exact .start (hexWord_singleMark_iff.mpr ⟨List.forall_mem_singleton.mp hplain, hm⟩)
  | lines hn => exact .lines hn
  | frame => exact .frame (List.cons.inj (hframe rfl)).2
  | set name value => exact .set name value
  | print htopic => exact .print htopic
  | traceOn => exact .traceOn
  | traceOff => exact .traceOff

/-- What is read off a line is what its words are accepted as, and a line whose words are nothing
is an error.  The words are those of the described language just if they are tidy as well. -/
theorem readLine_exactly (code : List Char) :
    (∀ c, readLine code = .ok c ↔ Accepted (wordsIn code) c) ∧
    ((∃ e, readLine code = .error e) ↔ ∀ c, ¬ Accepted (wordsIn code) c) ∧
    ∀ c, Documented (wordsIn code) c ↔ readLine code = .ok c ∧ Tidy (wordsIn code) := by
  refine ⟨fun c => readLine_eq_ok_iff, ?_, fun c => ?_⟩
  · simp only [← readLine_eq_ok_iff]
    cases readLine code <;> simp
  · rw [readLine_eq_ok_iff]
    exact ⟨fun h => ⟨h.accepted, h.tidy⟩, fun ⟨h, htidy⟩ => h.documented htidy⟩

/-- A prefix that is repeated, a sign, and a word after `frame` are read all the same. -/
theorem untidy_lines_read :
    (readLine "w 0x0x4300 01".toList = .ok (.write 0x4300 1) ∧
      ∀ c, ¬ Documented (wordsIn "w 0x0x4300 01".toList) c) ∧
    (readLine "dma +1".toList = .ok (.write 0x420B 1) ∧
      ∀ c, ¬ Documented (wordsIn "dma +1".toList) c) ∧
    (readLine "frame 10".toList = .ok .runFrame ∧
      ∀ c, ¬ Documented (wordsIn "frame 10".toList) c) :=
  ⟨⟨rfl, fun _ h => absurd h.tidy (by decide)⟩, ⟨rfl, fun _ h => absurd h.tidy (by decide)⟩,
    ⟨rfl, fun _ h => absurd h.tidy (by decide)⟩⟩

end Command

end DmaController
