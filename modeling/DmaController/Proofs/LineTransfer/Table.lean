import DmaController.Channel.Basic
import DmaController.LineTransfer.Header
import DmaController.Proofs.Steady

/-! # Tables of line transfers

An `Entry` is a header byte other than zero with the data it owns: one unit if its unit is sent on
the first line alone, and a unit for each of its lines if it repeats.  `Entry.line` is the data of
a single line, and `expansion` the reference for a whole table: the data of every line in turn.

`Laid M c o es` says that the entries `es`, with a zero header behind them, lie in the memory `M`
from the offset `o` on, as the channel `c` would find them: each with its data, or each with a
word behind the header that says where in the indirect bank its data lies. -/

namespace DmaController

namespace Header

/-- The number of lines an entry lasts, by its header byte. -/
def linesOf (v : UInt8) : Nat := if v = 0x80 then 128 else (v % 0x80).toNat

/-- Whether an entry sends a unit on each of its lines, by its header byte. -/
def repeatsOf (v : UInt8) : Bool := decide (0x80 ≤ v)

theorem ofByte_eq {v : UInt8} (h : v ≠ 0) :
    ofByte v = .entry (UInt8.ofNat (linesOf v)) (repeatsOf v) := by
  unfold ofByte linesOf repeatsOf
  rw [if_neg h]
  by_cases h80 : v = 0x80
  · subst h80
    rfl
  · rw [if_neg h80, if_neg h80, UInt8.ofNat_toNat]

theorem linesOf_pos {v : UInt8} (h : v ≠ 0) : 0 < linesOf v := by
  have h0 : v.toNat ≠ 0 := fun e => h (UInt8.toNat_inj.mp e)
  have hlt := v.toNat_lt
  unfold linesOf
  split
  · decide
  · rename_i h80
    have h80' : v.toNat ≠ 0x80 := fun e => h80 (UInt8.toNat_inj.mp e)
    change v.toNat ≠ 128 at h80'
    show 0 < v.toNat % 128
    omega

theorem linesOf_le (v : UInt8) : linesOf v ≤ 128 := by
  unfold linesOf
  split
  · exact Nat.le_refl 128
  · show v.toNat % 128 ≤ 128
    omega

end Header

/-- An entry of a table for units of a mode. -/
structure Entry (mode : UnitMode) where
  header : UInt8
  data : List UInt8
  header_ne : header ≠ 0
  length_data : data.length =
    mode.size * if Header.repeatsOf header then Header.linesOf header else 1

namespace Entry

variable {mode : UnitMode} (e : Entry mode)

/-- The number of lines the entry lasts. -/
def lines : Nat := Header.linesOf e.header

/-- Whether the entry sends a unit on each of its lines. -/
def repeats : Bool := Header.repeatsOf e.header

/-- Whether the entry sends a unit on its line `j`. -/
def sends (j : Nat) : Bool := e.repeats || j == 0

/-- The bytes of line `j`. -/
def line (j : Nat) : List UInt8 :=
  if e.sends j then (e.data.drop (j * mode.size)).take mode.size else []

/-- The bytes of all lines. -/
def expansion : List (List UInt8) := (List.range e.lines).map e.line

/-- The data that is left when `j` lines are over. -/
def rest (j : Nat) : List UInt8 := e.data.drop (j * mode.size)

theorem lines_pos : 0 < e.lines := Header.linesOf_pos e.header_ne

theorem lines_le : e.lines ≤ 128 := Header.linesOf_le e.header

theorem rest_zero : e.rest 0 = e.data := by rw [rest, Nat.zero_mul, List.drop_zero]

theorem drop_rest (j : Nat) : (e.rest j).drop mode.size = e.rest (j + 1) := by
  rw [rest, rest, List.drop_drop, Nat.succ_mul]

/-- Where nothing is sent, nothing is left. -/
theorem rest_of_not_sends {j : Nat} (h : e.sends j = false) : e.rest j = [] := by
  obtain ⟨hr, hj⟩ : e.repeats = false ∧ (j == 0) = false := by simpa [sends] using h
  have hj' : j ≠ 0 := by simpa using hj
  have hlen := e.length_data
  rw [show Header.repeatsOf e.header = false from hr, if_neg Bool.false_ne_true,
    Nat.mul_one] at hlen
  apply List.drop_eq_nil_of_le
  rw [hlen]
  exact Nat.le_mul_of_pos_left mode.size (Nat.pos_of_ne_zero hj')

theorem rest_lines : e.rest e.lines = [] := by
  apply List.drop_eq_nil_of_le
  rw [e.length_data, Nat.mul_comm]
  apply Nat.mul_le_mul_right
  have := e.lines_pos
  split
  · exact Nat.le_refl _
  · omega

/-- Where a unit is sent, it is a whole one. -/
theorem size_le_rest {j : Nat} (hs : e.sends j = true) (hj : j < e.lines) :
    mode.size ≤ (e.rest j).length := by
  rw [rest, List.length_drop, e.length_data]
  cases hr : e.repeats with
  | true =>
      rw [show Header.repeatsOf e.header = true from hr, if_pos rfl]
      have h : (j + 1) * mode.size ≤ e.lines * mode.size := Nat.mul_le_mul_right _ hj
      rw [Nat.succ_mul] at h
      rw [Nat.mul_comm mode.size]
      show mode.size ≤ e.lines * mode.size - j * mode.size
      omega
  | false =>
      have h0 : j = 0 := by simpa [sends, hr] using hs
      rw [show Header.repeatsOf e.header = false from hr, if_neg Bool.false_ne_true, h0]
      omega

theorem line_eq (j : Nat) : e.line j = if e.sends j then (e.rest j).take mode.size else [] := rfl

theorem length_line {j : Nat} (hs : e.sends j = true) (hj : j < e.lines) :
    (e.line j).length = mode.size := by
  rw [line_eq, if_pos hs, List.length_take]
  exact Nat.min_eq_left (e.size_le_rest hs hj)

end Entry

/-- The bytes of every line of a table. -/
def expansion {mode : UnitMode} (es : List (Entry mode)) : List (List UInt8) :=
  es.flatMap Entry.expansion

/-- The number of lines that the entries of a table last together. -/
def totalLines {mode : UnitMode} : List (Entry mode) → Nat
  | [] => 0
  | e :: es => e.lines + totalLines es

theorem length_expansion {mode : UnitMode} (es : List (Entry mode)) :
    (expansion es).length = totalLines es := by
  induction es with
  | nil => rfl
  | cons e es ih =>
      rw [totalLines, ← ih, expansion, List.flatMap_cons, List.length_append, Entry.expansion,
        List.length_map, List.length_range, expansion]

/-! ### Tables in memory -/

/-- The bytes lie in a bank from the offset `o` on, round its end if need be. -/
def Holds (M : Address → Option UInt8) (bank : UInt8) (o : UInt16) (bytes : List UInt8) : Prop :=
  ∀ k v, bytes[k]? = some v → M (.of bank (o + UInt16.ofNat k)) = some v

/-- The bytes may be looked up one by one. -/
theorem Holds.of_forall {M : Address → Option UInt8} {bank : UInt8} {o : UInt16}
    {bytes : List UInt8}
    (h : ∀ k : Fin bytes.length, M (.of bank (o + UInt16.ofNat k)) = some bytes[k]) :
    Holds M bank o bytes := by
  intro k v hv
  obtain ⟨hk, rfl⟩ := List.getElem?_eq_some_iff.mp hv
  exact h ⟨k, hk⟩

theorem Holds.drop {M : Address → Option UInt8} {bank : UInt8} {o : UInt16} {bytes : List UInt8}
    (h : Holds M bank o bytes) (n : Nat) : Holds M bank (o + UInt16.ofNat n) (bytes.drop n) := by
  intro k v hv
  rw [List.getElem?_drop] at hv
  have := h (n + k) v hv
  rwa [UInt16.ofNat_add, ← UInt16.add_assoc] at this

theorem Holds.take {M : Address → Option UInt8} {bank : UInt8} {o : UInt16} {bytes : List UInt8}
    (h : Holds M bank o bytes) (n : Nat) : Holds M bank o (bytes.take n) := by
  intro k v hv
  rw [List.getElem?_take] at hv
  split at hv
  · exact h k v hv
  · cases hv

/-- Where a channel finds the entries of its table: from the offset `o` of its bank on, each with
its data or with a word for it, and a zero header at the end. -/
def Laid (M : Address → Option UInt8) (c : Channel) {mode : UnitMode} :
    UInt16 → List (Entry mode) → Prop
  | o, [] => M (.of c.bank o) = some 0
  | o, e :: es =>
      M (.of c.bank o) = some e.header ∧
        if c.control.indirect then
          o + 1 ≠ 0xFFFF ∧ ∃ low high, Holds M c.bank (o + 1) [low, high] ∧
            Holds M c.indirectBank (high.toUInt16 * 0x100 + low.toUInt16) e.data ∧
            Laid M c (o + 3) es
        else
          Holds M c.bank (o + 1) e.data ∧ Laid M c (o + 1 + UInt16.ofNat e.data.length) es

end DmaController
