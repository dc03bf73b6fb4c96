import Mathlib.Data.List.TakeWhile
import Mathlib.Data.Nat.Digits.Defs
import DmaController.Text.Numeral

/-! # How numerals are spelled

`Numeral.Spells` says what number a row of digits is worth, in any base, and the numerals that are
read are told by it: digits with something in front of them.  `Numeral.readHex` takes digits behind
any number of `0x`, any number of `$` and a plus sign, in this order
(`Numeral.readHex_eq_some_iff`); `Numeral.readNat32` takes decimal digits behind a plus sign
(`Numeral.readNat32_eq_ok_iff`). -/

namespace DmaController

namespace Numeral

/-- A row of digits that is worth `n`, the first digit counting most. -/
def Spells (base : Nat) (digit? : Char → Option Nat) (digits : List Char) (n : Nat) : Prop :=
  digits ≠ [] ∧
    ∃ values : List Nat, digits.map digit? = values.map some ∧
      Nat.ofDigits base values.reverse = n

/-- Nothing, or a plus sign. -/
def IsSign (sign : List Char) : Prop := sign = [] ∨ sign = ['+']

/-- At most one prefix of a numeral in base sixteen. -/
def SingleMark (mark : List Char) : Prop := mark = [] ∨ mark = ['0', 'x'] ∨ mark = ['$']

/-- Any number of `0x`, and then any number of `$`. -/
def marks (zeroX dollars : Nat) : List Char :=
  (List.replicate zeroX ['0', 'x']).flatten ++ List.replicate dollars '$'

/-- What reading a numeral in base sixteen passes over. -/
def AnyMarks (mark : List Char) : Prop :=
  ∃ zeroX dollars sign, IsSign sign ∧ mark = marks zeroX dollars ++ sign

/-- A word without a sign, and with no more than one of the characters that prefixes end in. -/
def Plain (word : List Char) : Prop := word.count 'x' + word.count '$' ≤ 1 ∧ '+' ∉ word

instance (word : List Char) : Decidable (Plain word) := inferInstanceAs (Decidable (_ ∧ _))

theorem SingleMark.anyMarks {mark : List Char} (h : SingleMark mark) : AnyMarks mark := by
  rcases h with rfl | rfl | rfl
  · exact ⟨0, 0, [], .inl rfl, rfl⟩
  · exact ⟨1, 0, [], .inl rfl, rfl⟩
  · exact ⟨0, 1, [], .inl rfl, rfl⟩

/-! ### Marks -/

theorem count_zeroX (k : Nat) : ((List.replicate k ['0', 'x']).flatten).count 'x' = k := by
  induction k with
  | zero => rfl
  | succ k ih =>
      rw [List.replicate_succ, List.flatten_cons, List.count_append, ih, Nat.add_comm]
      rfl

theorem notMem_zeroX {c : Char} (k : Nat) (hc : c ∉ ['0', 'x']) :
    c ∉ (List.replicate k ['0', 'x']).flatten := by
  simp [List.mem_flatten, List.mem_replicate, hc]

/-- Of what reading passes over, the plain part is a single mark. -/
theorem singleMark_iff {mark : List Char} : SingleMark mark ↔ AnyMarks mark ∧ Plain mark := by
  constructor
  · intro h
    refine ⟨h.anyMarks, ?_⟩
    rcases h with rfl | rfl | rfl <;> decide
  · rintro ⟨⟨zeroX, dollars, sign, hsign, rfl⟩, hcount, hplus⟩
    rcases hsign with rfl | rfl
    · have hx : (marks zeroX dollars).count 'x' = zeroX := by
        rw [marks, List.count_append, count_zeroX, List.count_replicate]
        simp
      have hdollar : (marks zeroX dollars).count '$' = dollars := by
        rw [marks, List.count_append,
          List.count_eq_zero_of_not_mem (notMem_zeroX zeroX (by decide)), List.count_replicate_self,
          Nat.zero_add]
      rw [List.append_nil, hx, hdollar] at hcount
      obtain ⟨rfl, rfl⟩ | ⟨rfl, rfl⟩ | ⟨rfl, rfl⟩ :
          (zeroX = 0 ∧ dollars = 0) ∨ (zeroX = 1 ∧ dollars = 0) ∨ (zeroX = 0 ∧ dollars = 1) := by
        omega
      · exact .inl rfl
      · exact .inr (.inl rfl)
      · exact .inr (.inr rfl)
    · exact absurd (by simp) hplus

/-! ### Rows of digits -/

variable {base : Nat} {digit? : Char → Option Nat}

theorem ofDigits_reverse_cons (base d : Nat) (values : List Nat) :
    Nat.ofDigits base (d :: values).reverse =
      d * base ^ values.length + Nat.ofDigits base values.reverse := by
  rw [List.reverse_cons, Nat.ofDigits_append, Nat.ofDigits_singleton, List.length_reverse,
    Nat.add_comm, Nat.mul_comm]

/-- A row of digits behind which a value so far of `value` has become `n`. -/
def Continues (base : Nat) (digit? : Char → Option Nat) (value : Nat) (digits : List Char)
    (n : Nat) : Prop :=
  ∃ values : List Nat, digits.map digit? = values.map some ∧
    value * base ^ values.length + Nat.ofDigits base values.reverse = n

theorem continues_nil {value n : Nat} : Continues base digit? value [] n ↔ value = n := by
  constructor
  · rintro ⟨values, hvalues, rfl⟩
    rw [List.map_nil, eq_comm, List.map_eq_nil_iff] at hvalues
    simp [hvalues]
  · rintro rfl
    exact ⟨[], rfl, by simp⟩

theorem continues_cons {value n : Nat} {c : Char} {cs : List Char} :
    Continues base digit? value (c :: cs) n ↔
      ∃ d, digit? c = some d ∧ Continues base digit? (value * base + d) cs n := by
  have hshift : ∀ (d : Nat) (values : List Nat),
      value * base ^ (d :: values).length + Nat.ofDigits base (d :: values).reverse =
        (value * base + d) * base ^ values.length + Nat.ofDigits base values.reverse := by
    intro d values
    rw [ofDigits_reverse_cons, List.length_cons, Nat.pow_succ]
    ring
  constructor
  · rintro ⟨values, hvalues, hn⟩
    cases values with
    | nil => cases hvalues
    | cons d values =>
        obtain ⟨hd, hrest⟩ := List.cons.inj hvalues
        exact ⟨d, hd, values, hrest, by rw [← hshift, hn]⟩
  · rintro ⟨d, hd, values, hrest, hn⟩
    exact ⟨d :: values, by rw [List.map_cons, hd, hrest, List.map_cons], by rw [hshift, hn]⟩

theorem Continues.le (hbase : 0 < base) {value n : Nat} {digits : List Char}
    (h : Continues base digit? value digits n) : value ≤ n := by
  obtain ⟨values, -, rfl⟩ := h
  calc value ≤ value * base ^ values.length :=
        Nat.le_mul_of_pos_right _ (Nat.pow_pos hbase)
    _ ≤ value * base ^ values.length + Nat.ofDigits base values.reverse := Nat.le_add_right _ _

theorem spells_iff {digits : List Char} {n : Nat} :
    Spells base digit? digits n ↔ digits ≠ [] ∧ Continues base digit? 0 digits n := by
  simp only [Spells, Continues, Nat.zero_mul, Nat.zero_add]

theorem Spells.isDigit {digits : List Char} {n : Nat} (h : Spells base digit? digits n) :
    ∀ c ∈ digits, ∃ d, digit? c = some d := by
  obtain ⟨-, values, hvalues, -⟩ := h
  intro c hc
  have hmem : digit? c ∈ values.map some := hvalues ▸ List.mem_map_of_mem hc
  obtain ⟨d, -, hd⟩ := List.mem_map.mp hmem
  exact ⟨d, hd.symm⟩

theorem map_eq_map_some {digits : List Char} (h : ∀ c ∈ digits, (digit? c).isSome = true) :
    digits.map digit? = (digits.filterMap digit?).map some := by
  induction digits with
  | nil => rfl
  | cons c cs ih =>
      obtain ⟨hc, hcs⟩ := List.forall_mem_cons.mp h
      obtain ⟨d, hd⟩ := Option.isSome_iff_exists.mp hc
      rw [List.map_cons, List.filterMap_cons_some hd, List.map_cons, hd, ih hcs]

/-- A row of digits is worth something if there is one, and nothing else in it. -/
theorem exists_spells_iff {digits : List Char} :
    (∃ n, Spells base digit? digits n) ↔
      digits ≠ [] ∧ ∀ c ∈ digits, (digit? c).isSome = true := by
  constructor
  · rintro ⟨n, hn⟩
    exact ⟨hn.1, fun c hc => Option.isSome_iff_exists.mpr (hn.isDigit c hc)⟩
  · rintro ⟨hsome, hdigits⟩
    exact ⟨_, hsome, digits.filterMap digit?, map_eq_map_some hdigits, rfl⟩

/-- Every number has a row of digits, if there is a digit for everything below the base. -/
theorem exists_spells (hbase : 1 < base) {char : Nat → Char}
    (hchar : ∀ d < base, digit? (char d) = some d) (n : Nat) :
    ∃ digits, Spells base digit? digits n := by
  have hvalues : ∀ d ∈ 0 :: (Nat.digits base n).reverse, digit? (char d) = some d := by
    intro d hd
    rcases List.mem_cons.mp hd with rfl | hd
    · exact hchar 0 (by omega)
    · exact hchar d (Nat.digits_lt_base hbase (List.mem_reverse.mp hd))
  refine ⟨(0 :: (Nat.digits base n).reverse).map char, List.cons_ne_nil _ _,
    0 :: (Nat.digits base n).reverse, ?_, ?_⟩
  · rw [List.map_map]
    exact List.map_congr_left hvalues
  · rw [ofDigits_reverse_cons, Nat.zero_mul, Nat.zero_add, List.reverse_reverse,
      Nat.ofDigits_digits]

/-! ### Base sixteen -/

theorem readHexDigits_eq_some_iff {value n : Nat} {digits : List Char} :
    readHexDigits value digits = some n ↔ Continues 16 hexDigit? value digits n := by
  induction digits generalizing value with
  | nil => rw [readHexDigits, continues_nil, Option.some.injEq]
  | cons c cs ih => simp only [readHexDigits, Option.bind_eq_some_iff, continues_cons, ih]

/-- No mark is a digit. -/
theorem hexDigit?_mark {c : Char} (hc : c = 'x' ∨ c = '$' ∨ c = '+') : hexDigit? c = none := by
  rcases hc with rfl | rfl | rfl <;> rfl

theorem Spells.notMem_mark {digits : List Char} {n : Nat} (h : Spells 16 hexDigit? digits n)
    {c : Char} (hc : c = 'x' ∨ c = '$' ∨ c = '+') : c ∉ digits := by
  intro hmem
  obtain ⟨d, hd⟩ := h.isDigit c hmem
  rw [hexDigit?_mark hc] at hd
  cases hd

theorem Spells.plain_append {digits : List Char} {n : Nat} (h : Spells 16 hexDigit? digits n)
    (mark : List Char) : Plain (mark ++ digits) ↔ Plain mark := by
  have hx : digits.count 'x' = 0 := List.count_eq_zero_of_not_mem (h.notMem_mark (.inl rfl))
  have hdollar : digits.count '$' = 0 :=
    List.count_eq_zero_of_not_mem (h.notMem_mark (.inr (.inl rfl)))
  have hplus : '+' ∉ digits := h.notMem_mark (.inr (.inr rfl))
  simp only [Plain, List.count_append, hx, hdollar, List.mem_append, hplus, or_false, Nat.add_zero]

theorem dropZeroX_eq (cs : List Char) :
    ∃ k, cs = (List.replicate k ['0', 'x']).flatten ++ dropZeroX cs := by
  fun_induction dropZeroX cs with
  | case1 cs ih =>
      obtain ⟨k, hk⟩ := ih
      refine ⟨k + 1, ?_⟩
      rw [List.replicate_succ, List.flatten_cons, List.append_assoc, ← hk]
      rfl
  | case2 cs _ => exact ⟨0, rfl⟩

theorem dropZeroX_append (k : Nat) (cs : List Char) :
    dropZeroX ((List.replicate k ['0', 'x']).flatten ++ cs) = dropZeroX cs := by
  induction k with
  | zero => rfl
  | succ k ih =>
      rw [List.replicate_succ, List.flatten_cons, List.append_assoc]
      exact ih

theorem dropZeroX_of_notMem {cs : List Char} (h : 'x' ∉ cs) : dropZeroX cs = cs := by
  unfold dropZeroX
  split
  · exact absurd (by simp) h
  · rfl

/-- The prefixes come off, and nothing else. -/
theorem dropHexPrefixes_append (zeroX dollars : Nat) {rest : List Char} (hx : 'x' ∉ rest)
    (hdollar : '$' ∉ rest) : dropHexPrefixes (marks zeroX dollars ++ rest) = rest := by
  have hnoZeroX : 'x' ∉ List.replicate dollars '$' ++ rest := by simp [List.mem_replicate, hx]
  have hdollars : ∀ c ∈ List.replicate dollars '$', (c == '$') = true :=
    fun c hc => beq_iff_eq.mpr (List.eq_of_mem_replicate hc)
  have hrest : rest.dropWhile (· == '$') = rest := by
    refine List.dropWhile_eq_self_iff.mpr fun hl hhead => hdollar ?_
    exact beq_iff_eq.mp hhead ▸ List.getElem_mem hl
  rw [dropHexPrefixes, marks, List.append_assoc, dropZeroX_append, dropZeroX_of_notMem hnoZeroX,
    List.dropWhile_append_of_pos hdollars, hrest]

theorem dropHexPrefixes_eq (cs : List Char) :
    ∃ zeroX dollars, cs = marks zeroX dollars ++ dropHexPrefixes cs := by
  obtain ⟨zeroX, hzeroX⟩ := dropZeroX_eq cs
  have hdollars : (dropZeroX cs).takeWhile (· == '$') =
      List.replicate ((dropZeroX cs).takeWhile (· == '$')).length '$' :=
    List.eq_replicate_of_mem fun c hc => by simpa using List.mem_takeWhile_imp hc
  refine ⟨zeroX, ((dropZeroX cs).takeWhile (· == '$')).length, ?_⟩
  rw [marks, ← hdollars, List.append_assoc, dropHexPrefixes, List.takeWhile_append_dropWhile,
    ← hzeroX]

theorem dropPlus_append {sign rest : List Char} (hsign : IsSign sign) (hplus : '+' ∉ rest) :
    dropPlus (sign ++ rest) = rest := by
  rcases hsign with rfl | rfl
  · rw [List.nil_append]
    unfold dropPlus
    split
    · exact absurd List.mem_cons_self hplus
    · rfl
  · rfl

theorem dropPlus_eq (cs : List Char) : ∃ sign, IsSign sign ∧ cs = sign ++ dropPlus cs := by
  unfold dropPlus
  split
  · exact ⟨['+'], .inr rfl, rfl⟩
  · exact ⟨[], .inl rfl, rfl⟩

theorem IsSign.notMem {sign : List Char} (h : IsSign sign) {c : Char} (hc : c ≠ '+') :
    c ∉ sign := by
  rcases h with rfl | rfl
  · exact List.not_mem_nil
  · simpa using hc

/-- Reading passes over the marks in front of digits, and over nothing else. -/
theorem drop_marks {mark digits : List Char} {n : Nat} (hmark : AnyMarks mark)
    (h : Spells 16 hexDigit? digits n) :
    dropPlus (dropHexPrefixes (mark ++ digits)) = digits := by
  obtain ⟨zeroX, dollars, sign, hsign, rfl⟩ := hmark
  have hx : 'x' ∉ sign ++ digits :=
    List.not_mem_append (hsign.notMem (by decide)) (h.notMem_mark (.inl rfl))
  have hdollar : '$' ∉ sign ++ digits :=
    List.not_mem_append (hsign.notMem (by decide)) (h.notMem_mark (.inr (.inl rfl)))
  rw [List.append_assoc, dropHexPrefixes_append zeroX dollars hx hdollar,
    dropPlus_append hsign (h.notMem_mark (.inr (.inr rfl)))]

/-- A number in base sixteen is read from its digits, behind any marks and a plus sign. -/
theorem readHex_eq_some_iff {cs : List Char} {n : Nat} :
    readHex cs = some n ↔
      ∃ mark digits, cs = mark ++ digits ∧ AnyMarks mark ∧ Spells 16 hexDigit? digits n := by
  unfold readHex
  constructor
  · obtain ⟨zeroX, dollars, hprefixes⟩ := dropHexPrefixes_eq cs
    obtain ⟨sign, hsign, hplus⟩ := dropPlus_eq (dropHexPrefixes cs)
    have hwhole : cs = marks zeroX dollars ++ sign ++ dropPlus (dropHexPrefixes cs) := by
      rw [List.append_assoc, ← hplus, ← hprefixes]
    intro h
    split at h
    · cases h
    · rename_i hsome
      have hdigits := spells_iff.mpr ⟨hsome, readHexDigits_eq_some_iff.mp h⟩
      exact ⟨_, _, hwhole, ⟨_, _, sign, hsign, rfl⟩, hdigits⟩
  · rintro ⟨mark, digits, rfl, hmark, hdigits⟩
    rw [drop_marks hmark hdigits]
    split
    · exact absurd rfl hdigits.1
    · exact readHexDigits_eq_some_iff.mpr (spells_iff.mp hdigits).2

/-! ### Base ten -/

/-- The worth of all digits is reached step by step, without passing the limit before. -/
theorem readDecimal_eq_ok_iff {limit value n : Nat} {beyond : NumeralError} {digits : List Char}
    (hvalue : value ≤ limit) :
    readDecimal limit beyond value digits = .ok n ↔
      n ≤ limit ∧ Continues 10 decimalDigit? value digits n := by
  induction digits generalizing value with
  | nil =>
      rw [readDecimal, continues_nil, Except.ok.injEq]
      exact ⟨fun h => ⟨h ▸ hvalue, h⟩, And.right⟩
  | cons c cs ih =>
      rw [readDecimal, continues_cons]
      cases hc : decimalDigit? c with
      | none => simp
      | some d =>
          simp only [Option.some.injEq, exists_eq_left']
          split
          · rename_i hle
            exact ih hle
          · rename_i hbeyond
            -- the value so far is no more than the whole, so the limit is passed for good
            exact ⟨nofun, fun ⟨hn, hrest⟩ => absurd ((hrest.le (by decide)).trans hn) hbeyond⟩

theorem readDigits_eq_ok_iff {limit n : Nat} {beyond : NumeralError} {digits : List Char} :
    readDigits limit beyond digits = .ok n ↔ n ≤ limit ∧ Spells 10 decimalDigit? digits n := by
  cases digits with
  | nil => exact ⟨nofun, fun h => absurd rfl h.2.1⟩
  | cons c cs =>
      rw [readDigits, readDecimal_eq_ok_iff (Nat.zero_le _), spells_iff,
        and_iff_right (List.cons_ne_nil c cs)]
      exact nofun

/-- A number of 32 bits is read from its decimal digits, behind a plus sign if there is one. -/
theorem readNat32_eq_ok_iff {cs : List Char} {n : Nat} :
    readNat32 cs = .ok n ↔
      n ≤ 0xFFFFFFFF ∧ ∃ sign digits, cs = sign ++ digits ∧ IsSign sign ∧
        Spells 10 decimalDigit? digits n := by
  constructor
  · intro h
    unfold readNat32 at h
    split at h
    · cases h
    · obtain ⟨hn, hdigits⟩ := readDigits_eq_ok_iff.mp h
      exact ⟨hn, ['+'], _, rfl, .inr rfl, hdigits⟩
    · obtain ⟨hn, hdigits⟩ := readDigits_eq_ok_iff.mp h
      exact ⟨hn, [], _, rfl, .inl rfl, hdigits⟩
  · rintro ⟨hn, sign, digits, rfl, rfl | rfl, hdigits⟩
    · rw [List.nil_append]
      unfold readNat32
      split
      · exact absurd rfl hdigits.1
      · rename_i cs
        obtain ⟨d, hd⟩ := hdigits.isDigit '+' List.mem_cons_self
        cases hd
      · exact readDigits_eq_ok_iff.mpr ⟨hn, hdigits⟩
    · exact readDigits_eq_ok_iff.mpr ⟨hn, hdigits⟩

end Numeral

end DmaController
