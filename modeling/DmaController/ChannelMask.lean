/-! # Channel numbers and sets of channels

The controller has eight channels.  A set of channels is a byte whose bit `i` stands for channel
`i`, as the processor writes it; `i ∈ m` reads the bit.  Two sets with the same members are
equal (`ChannelMask.ext_mem`), and each operation has a lemma that says what its members are. -/

namespace DmaController

/-- The number of a channel. -/
abbrev ChannelId := Fin 8

/-- The channel numbered by the low three bits of a number. -/
def channelNumber (n : Nat) : ChannelId := ⟨n % 8, Nat.mod_lt n (by decide)⟩

/-- A set of channels, one bit each. -/
structure ChannelMask where
  bits : UInt8
deriving DecidableEq, Repr

namespace ChannelMask

/-- Whether bit `i` is set. -/
def contains (m : ChannelMask) (i : ChannelId) : Bool := m.bits.toBitVec.getLsbD i

instance : Membership ChannelId ChannelMask := ⟨fun m i => m.contains i = true⟩

instance (m : ChannelMask) (i : ChannelId) : Decidable (i ∈ m) :=
  inferInstanceAs (Decidable (m.contains i = true))

instance : EmptyCollection ChannelMask := ⟨⟨0⟩⟩

instance : Inhabited ChannelMask := ⟨∅⟩

/-- The set of channel `i` alone. -/
def single (i : ChannelId) : ChannelMask := ⟨⟨1#8 <<< i.val⟩⟩

instance : Union ChannelMask := ⟨fun m k => ⟨m.bits ||| k.bits⟩⟩

instance : SDiff ChannelMask := ⟨fun m k => ⟨m.bits &&& ~~~k.bits⟩⟩

/-- The set with channel `i` added. -/
def insert (m : ChannelMask) (i : ChannelId) : ChannelMask := m ∪ single i

/-- The set with channel `i` taken out. -/
def erase (m : ChannelMask) (i : ChannelId) : ChannelMask := m \ single i

/-- The members in ascending order. -/
def toList (m : ChannelMask) : List ChannelId := (List.finRange 8).filter m.contains

/-- Whether a channel with a higher number than `i` is in the set. -/
def anyAbove (m : ChannelMask) (i : ChannelId) : Bool :=
  (List.finRange 8).any fun j => decide (i < j) && m.contains j

theorem mem_def {m : ChannelMask} {i : ChannelId} : i ∈ m ↔ m.contains i = true := Iff.rfl

theorem contains_union (m k : ChannelMask) (i : ChannelId) :
    (m ∪ k).contains i = (m.contains i || k.contains i) := by
  change (m.bits ||| k.bits).toBitVec.getLsbD i = _
  simp [contains]

theorem contains_sdiff (m k : ChannelMask) (i : ChannelId) :
    (m \ k).contains i = (m.contains i && !k.contains i) := by
  change (m.bits &&& ~~~k.bits).toBitVec.getLsbD i = _
  simp [contains]

theorem contains_single (i j : ChannelId) : (single i).contains j = decide (i = j) := by
  revert i j
  decide

theorem contains_empty (i : ChannelId) : (∅ : ChannelMask).contains i = false := by
  revert i
  decide

@[simp] theorem mem_union {m k : ChannelMask} {i : ChannelId} : i ∈ m ∪ k ↔ i ∈ m ∨ i ∈ k := by
  simp [mem_def, contains_union]

@[simp] theorem mem_sdiff {m k : ChannelMask} {i : ChannelId} : i ∈ m \ k ↔ i ∈ m ∧ i ∉ k := by
  simp [mem_def, contains_sdiff]

@[simp] theorem mem_single {i j : ChannelId} : j ∈ single i ↔ i = j := by
  simp [mem_def, contains_single]

@[simp] theorem not_mem_empty (i : ChannelId) : i ∉ (∅ : ChannelMask) := by
  simp [mem_def, contains_empty]

@[simp] theorem mem_insert {m : ChannelMask} {i j : ChannelId} :
    j ∈ m.insert i ↔ j ∈ m ∨ i = j := by
  simp [insert]

@[simp] theorem mem_erase {m : ChannelMask} {i j : ChannelId} :
    j ∈ m.erase i ↔ j ∈ m ∧ i ≠ j := by
  simp [erase]

@[simp] theorem mem_toList {m : ChannelMask} {i : ChannelId} : i ∈ m.toList ↔ i ∈ m := by
  simp [toList, mem_def, List.mem_filter]

theorem anyAbove_iff {m : ChannelMask} {i : ChannelId} :
    m.anyAbove i = true ↔ ∃ j, i < j ∧ j ∈ m := by
  simp [anyAbove, mem_def]

/-- Sets with the same members are equal. -/
theorem ext_mem {m k : ChannelMask} (h : ∀ i, i ∈ m ↔ i ∈ k) : m = k := by
  obtain ⟨⟨m⟩⟩ := m
  obtain ⟨⟨k⟩⟩ := k
  congr 2
  apply BitVec.eq_of_getLsbD_eq
  intro i hi
  have := h ⟨i, hi⟩
  simp only [mem_def, contains] at this
  exact Bool.eq_iff_iff.mpr this

end ChannelMask

end DmaController
