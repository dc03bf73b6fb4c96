import DmaController.Address

/-! # The memory map of a console

Which memory cell, if any, answers to an address of the A-bus.  In the system banks the lowest
8 KiB are the start of work RAM, the B-bus shows through at `$2100`-`$21FF`, nothing answers in
the rest below `$8000`, and read-only memory follows.  The banks `$7E` and `$7F` are work RAM,
and all others are read-only memory. -/

namespace DmaController

/-- What answers to an address. -/
inductive Region where
  | workRam (cell : Nat)
  | rom (cell : Nat)
  | registers (address : UInt16)
  | nothing
deriving DecidableEq, Repr

namespace Region

/-- The first cell of work RAM. -/
def workRamStart : Nat := 0x7E0000

/-- What answers to an address. -/
def of (a : Address) : Region :=
  let offset := Address.offset a
  if isSystemBank (Address.bank a) then
    if offset < 0x2000 then workRam (workRamStart + offset.toNat)
    else if 0x2100 ≤ offset ∧ offset ≤ 0x21FF then registers offset
    else if offset < 0x8000 then nothing
    else rom a.cell
  else if isWorkRamBank (Address.bank a) then workRam a.cell
  else rom a.cell

/-- The memory cell of a region, where it is memory. -/
def cell? : Region → Option Nat
  | workRam c => some c
  | rom c => some c
  | registers _ => none
  | nothing => none

end Region

end DmaController
