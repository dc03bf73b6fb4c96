import DmaController.Buses

/-! # Noting what is asked of the buses

`Traced β` puts a notebook in front of buses of type `β`: every request is passed on to them and
noted (`BusCall`), the accesses to a register together with whether the A-bus was said to use work
RAM at that moment.  The entrances that lead to the ordinary registers unless their owner says
otherwise are left to do so, and words are read as two bytes; the notebook of a run is thus the
list of all single accesses it makes.

`BusCall.written?` picks out the register writes, and `BusCall.served?` those that arrive: a byte
written to the work RAM port `$2180` while work RAM is in use is lost.  `Calls f t t' ws` says that
`ws` is what `f` picks out of the requests between two states of a notebook. -/

namespace DmaController

/-- A request to the buses. -/
inductive BusCall where
  | read (a : Address) (v : UInt8)
  | write (a : Address) (v : UInt8)
  | readRegister (a : UInt16) (v : UInt8) (taken : Bool)
  | writeRegister (a : UInt16) (v : UInt8) (taken : Bool)
  | blockPointer (a : Address)
  | bytePointer (a : Address)
  | peek (p : Pointer) (v : UInt8)
  | setOpenBus (v : UInt8)
  | setWorkRamTaken (taken : Bool)
  | setSpriteAddress (a : UInt16)
deriving DecidableEq, Repr

namespace BusCall

/-- The register and the byte of a register write. -/
def written? : BusCall → Option (UInt16 × UInt8)
  | writeRegister a v _ => some (a, v)
  | _ => none

/-- The register and the byte of a register write that arrives. -/
def served? : BusCall → Option (UInt16 × UInt8)
  | writeRegister a v taken => if a = 0x2180 ∧ taken = true then none else some (a, v)
  | _ => none

end BusCall

/-- Buses behind a notebook. -/
structure Traced (β : Type) where
  inner : β
  /-- What was last said about work RAM. -/
  taken : Bool
  /-- The requests so far, in order. -/
  calls : List BusCall

namespace Traced

variable {β : Type}

/-- The same notebook with one more entry, in front of other buses. -/
def note (t : Traced β) (b : β) (c : BusCall) : Traced β := ⟨b, t.taken, t.calls ++ [c]⟩

instance [Buses β] : Buses (Traced β) where
  read a t :=
    let got := Buses.read a t.inner
    (got.1, t.note got.2 (.read a got.1))
  write a v t := t.note (Buses.write a v t.inner) (.write a v)
  readRegister a t :=
    let got := Buses.readRegister a t.inner
    (got.1, t.note got.2 (.readRegister a got.1 t.taken))
  writeRegister a v t :=
    t.note (Buses.writeRegister a v t.inner) (.writeRegister a v t.taken)
  blockPointer a t :=
    let got := Buses.blockPointer a t.inner
    (got.1, t.note got.2 (.blockPointer a))
  bytePointer a t :=
    let got := Buses.bytePointer a t.inner
    (got.1, t.note got.2 (.bytePointer a))
  peek p t :=
    let got := Buses.peek p t.inner
    (got.1, t.note got.2 (.peek p got.1))
  remapsVideo t := Buses.remapsVideo t.inner
  setOpenBus v t := t.note (Buses.setOpenBus v t.inner) (.setOpenBus v)
  setWorkRamTaken taken t :=
    ⟨Buses.setWorkRamTaken taken t.inner, taken, t.calls ++ [.setWorkRamTaken taken]⟩
  setSpriteAddress a t := t.note (Buses.setSpriteAddress a t.inner) (.setSpriteAddress a)

/-- Between `t` and `t'` requests were made of which `f` picks out `ws`. -/
def Calls {γ : Type} (f : BusCall → Option γ) (t t' : Traced β) (ws : List γ) : Prop :=
  ∃ calls, t'.calls = t.calls ++ calls ∧ calls.filterMap f = ws

namespace Calls

variable {γ : Type} {f : BusCall → Option γ} {t t' t'' : Traced β} {ws ws' : List γ}

theorem of_eq (h : t'.calls = t.calls) : Calls f t t' [] := ⟨[], by rw [h, List.append_nil], rfl⟩

theorem one {c : BusCall} (h : t'.calls = t.calls ++ [c]) : Calls f t t' (f c).toList := by
  refine ⟨[c], h, ?_⟩
  cases hc : f c <;> simp [hc]

theorem trans (h : Calls f t t' ws) (h' : Calls f t' t'' ws') : Calls f t t'' (ws ++ ws') := by
  obtain ⟨calls, e, hw⟩ := h
  obtain ⟨calls', e', hw'⟩ := h'
  refine ⟨calls ++ calls', by rw [e', e, List.append_assoc], ?_⟩
  rw [List.filterMap_append, hw, hw']

/-- What is picked out of the requests is picked out once. -/
theorem unique (h : Calls f t t' ws) (h' : Calls f t t' ws') : ws = ws' := by
  obtain ⟨calls, e, hw⟩ := h
  obtain ⟨calls', e', hw'⟩ := h'
  rw [← hw, ← hw', List.append_cancel_left (e.symm.trans e')]

/-- Picking out in two steps. -/
theorem filterMap {δ : Type} {g : γ → Option δ} {f' : BusCall → Option δ} (h : Calls f t t' ws)
    (hf : ∀ c, (f c).bind g = f' c) : Calls f' t t' (ws.filterMap g) := by
  obtain ⟨calls, e, hw⟩ := h
  refine ⟨calls, e, ?_⟩
  rw [← hw, List.filterMap_filterMap]
  exact congrArg calls.filterMap (funext fun c => (hf c).symm)

end Calls

end Traced

end DmaController
