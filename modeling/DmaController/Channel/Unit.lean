/-! # Transfer units

A transfer moves its bytes in *units* of one, two or four.  The unit mode of a channel says to
which register each byte of a unit goes, counted from the channel's first register:

| mode | bytes | registers                 |
|------|-------|---------------------------|
| 0    | 1     | `+0`                      |
| 1    | 2     | `+0`, `+1`                |
| 2, 6 | 2     | `+0`, `+0`                |
| 3, 7 | 4     | `+0`, `+0`, `+1`, `+1`    |
| 4    | 4     | `+0`, `+1`, `+2`, `+3`    |
| 5    | 4     | `+0`, `+1`, `+0`, `+1`    |

A `UnitCursor` walks round the bytes of a unit. -/

namespace DmaController

/-- How the bytes of a unit are spread over registers. -/
inductive UnitMode where
  | mode0
  | mode1
  | mode2
  | mode3
  | mode4
  | mode5
  | mode6
  | mode7
deriving DecidableEq, Repr

namespace UnitMode

/-- All modes in numerical order. -/
def all : List UnitMode := [mode0, mode1, mode2, mode3, mode4, mode5, mode6, mode7]

/-- The mode numbered by the low three bits of a byte. -/
def ofByte (v : UInt8) : UnitMode :=
  match v.toNat % 8 with
  | 0 => mode0
  | 1 => mode1
  | 2 => mode2
  | 3 => mode3
  | 4 => mode4
  | 5 => mode5
  | 6 => mode6
  | _ => mode7

/-- The number of a mode. -/
def number : UnitMode → UInt8
  | mode0 => 0
  | mode1 => 1
  | mode2 => 2
  | mode3 => 3
  | mode4 => 4
  | mode5 => 5
  | mode6 => 6
  | mode7 => 7

/-- The register of each byte of a unit, counted from the channel's first register. -/
def offsets : UnitMode → List UInt8
  | mode0 => [0]
  | mode1 => [0, 1]
  | mode2 | mode6 => [0, 0]
  | mode3 | mode7 => [0, 0, 1, 1]
  | mode4 => [0, 1, 2, 3]
  | mode5 => [0, 1, 0, 1]

/-- The number of bytes in a unit. -/
def size (m : UnitMode) : Nat := m.offsets.length

/-- Modes that send every byte to the same register. -/
def isSingle : UnitMode → Bool
  | mode0 | mode2 | mode6 => true
  | _ => false

/-- Modes that go back and forth between two neighbouring registers. -/
def isAlternating : UnitMode → Bool
  | mode1 | mode5 => true
  | _ => false

theorem size_pos (m : UnitMode) : 0 < m.size := by cases m <;> decide

theorem size_le (m : UnitMode) : m.size ≤ 4 := by cases m <;> decide

theorem offset_le {m : UnitMode} {o : UInt8} (h : o ∈ m.offsets) : o ≤ 3 := by
  cases m <;> revert h <;> simp only [offsets, List.mem_cons, List.not_mem_nil, or_false] <;>
    rintro (rfl | rfl | rfl | rfl) <;> decide

end UnitMode

/-- A position in the units of a mode: the number of the next byte in its unit. -/
structure UnitCursor where
  mode : UnitMode
  step : Nat
deriving DecidableEq, Repr

namespace UnitCursor

/-- At the first byte of a unit. -/
def start (mode : UnitMode) : UnitCursor := ⟨mode, 0⟩

/-- The register of the next byte, counted from the channel's first register. -/
def offset (u : UnitCursor) : UInt8 := u.mode.offsets.getD u.step 0

/-- Past the next byte; the last byte of a unit is followed by the first of another. -/
def advance (u : UnitCursor) : UnitCursor :=
  ⟨u.mode, if u.step + 1 = u.mode.size then 0 else u.step + 1⟩

/-- Whether the next byte opens a unit. -/
def atStart (u : UnitCursor) : Bool := u.step == 0

theorem advance_step_lt {u : UnitCursor} (h : u.step < u.mode.size) :
    u.advance.step < u.advance.mode.size := by
  have := u.mode.size_pos
  simp only [advance]
  split <;> omega

end UnitCursor

end DmaController
