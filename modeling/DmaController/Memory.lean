import Std.Data.TreeMap

/-! # Byte memories

A memory holds a byte in every cell and starts out as zeros.  Only the cells that were written
are kept, in a search tree, so a memory can be copied freely.  `Memory.get_set` is all that the
rest of the library needs to know of it. -/

namespace DmaController

/-- A byte in every cell; cells never written hold zero. -/
structure Memory where
  cells : Std.TreeMap Nat UInt8

namespace Memory

/-- The memory of zeros. -/
def zero : Memory := ⟨∅⟩

instance : Inhabited Memory := ⟨zero⟩

/-- The byte in cell `a`. -/
def get (m : Memory) (a : Nat) : UInt8 := m.cells.getD a 0

/-- The memory with `v` in cell `a`. -/
def set (m : Memory) (a : Nat) (v : UInt8) : Memory := ⟨m.cells.insert a v⟩

/-- Stores bytes one after the other from cell `start` on, going round at 16 MiB. -/
def load (m : Memory) (start : Nat) : List UInt8 → Memory
  | [] => m
  | v :: vs => (m.set (start % 0x1000000) v).load (start + 1) vs

theorem get_set (m : Memory) (a b : Nat) (v : UInt8) :
    (m.set a v).get b = if a = b then v else m.get b := by
  simp [get, set, Std.TreeMap.getD_insert]

@[simp] theorem get_set_same (m : Memory) (a : Nat) (v : UInt8) : (m.set a v).get a = v := by
  simp [get_set]

theorem get_set_ne (m : Memory) {a b : Nat} (v : UInt8) (h : a ≠ b) :
    (m.set a v).get b = m.get b := by
  simp [get_set, h]

end Memory

end DmaController
