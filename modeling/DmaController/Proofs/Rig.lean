import DmaController.LineTransfer.Send

/-! # What work on a rig leaves alone

A change of one channel leaves the others, and what is done to the buses or to the cycle count
leaves them all.  `Keeps r r'` says of longer work on the buses that the controller has not changed
by it, except that it may think otherwise of work RAM; channels and sets can then be read off as
they were.  A rig is `Resting` when no general transfer is running on it and no word is left for
one. -/

namespace DmaController

/-- A register write touches neither the direct access of a channel nor its pending unit. -/
theorem Channel.cache_writeRegister (c : Channel) (position : Nat) (v : UInt8) :
    (c.writeRegister position v).cache = c.cache := by
  unfold writeRegister
  split
  · rename_i register _
    cases register <;> rfl
  · rfl

theorem Channel.pending_writeRegister (c : Channel) (position : Nat) (v : UInt8) :
    (c.writeRegister position v).pending = c.pending := by
  unfold writeRegister
  split
  · rename_i register _
    cases register <;> rfl
  · rfl

namespace Controller

@[simp] theorem channel_powerOn (settings : Settings) (i : ChannelId) :
    (powerOn settings).channel i = .powerOn := by
  simp [channel, powerOn]

@[simp] theorem channel_resetChannels (k : Controller) (i : ChannelId) :
    k.resetChannels.channel i = .powerOn := by
  simp [channel, resetChannels]

@[simp] theorem channel_enable (k : Controller) (m : ChannelMask) (i : ChannelId) :
    (k.enable m).channel i = k.channel i := by
  unfold enable
  split <;> rfl

theorem setChannel_channel (k : Controller) (i : ChannelId) : k.setChannel i (k.channel i) = k := by
  simp [setChannel, channel]

end Controller

namespace Rig

variable {β : Type} (r : Rig β)

@[simp] theorem channel_spend (n : Int) (j : ChannelId) :
    (r.spend n).channel j = r.channel j := rfl

@[simp] theorem channel_setChannel (i j : ChannelId) (c : Channel) :
    (r.setChannel i c).channel j = if i = j then c else r.channel j :=
  Controller.channel_setChannel r.controller i j c

@[simp] theorem channel_modifyChannel (i j : ChannelId) (f : Channel → Channel) :
    (r.modifyChannel i f).channel j = if i = j then f (r.channel i) else r.channel j :=
  r.channel_setChannel i j _

variable [Buses β]

@[simp] theorem channel_setWorkRamTaken (taken : Bool) (j : ChannelId) :
    (r.setWorkRamTaken taken).channel j = r.channel j := rfl

end Rig

/-! ### Work on the buses -/

namespace Rig

variable {β : Type}

/-- From `r` to `r'` the controller has changed no more than its word on work RAM. -/
def Keeps (r r' : Rig β) : Prop :=
  ∃ taken, r'.controller =
    { r.controller with activity := { r.controller.activity with workRamTaken := taken } }

namespace Keeps

variable {r r' r'' : Rig β}

theorem of_eq (h : r'.controller = r.controller) : r.Keeps r' :=
  ⟨r.controller.activity.workRamTaken, h⟩

theorem refl (r : Rig β) : r.Keeps r := of_eq rfl

theorem trans (h : r.Keeps r') (h' : r'.Keeps r'') : r.Keeps r'' := by
  obtain ⟨taken, e⟩ := h
  obtain ⟨taken', e'⟩ := h'
  exact ⟨taken', by rw [e', e]⟩

theorem setWorkRamTaken [Buses β] (h : r.Keeps r') (taken : Bool) :
    r.Keeps (r'.setWorkRamTaken taken) := h.trans ⟨taken, rfl⟩

theorem channel (h : r.Keeps r') (j : ChannelId) : r'.channel j = r.channel j := by
  obtain ⟨_, e⟩ := h
  simp only [Rig.channel, Controller.channel, e]

theorem settings (h : r.Keeps r') : r'.controller.settings = r.controller.settings := by
  obtain ⟨_, e⟩ := h
  rw [e]

theorem decoder (h : r.Keeps r') : r'.controller.decoder = r.controller.decoder := by
  obtain ⟨_, e⟩ := h
  rw [e]

theorem ranInside (h : r.Keeps r') :
    r'.controller.activity.ranInside = r.controller.activity.ranInside := by
  obtain ⟨_, e⟩ := h
  rw [e]

theorem inTransfer (h : r.Keeps r') :
    r'.controller.activity.inTransfer = r.controller.activity.inTransfer := by
  obtain ⟨_, e⟩ := h
  rw [e]

theorem active (h : r.Keeps r') : r'.controller.active = r.controller.active := by
  obtain ⟨_, e⟩ := h
  rw [e]

theorem ended (h : r.Keeps r') : r'.controller.ended = r.controller.ended := by
  obtain ⟨_, e⟩ := h
  rw [e]

theorem enabled (h : r.Keeps r') : r'.controller.enabled = r.controller.enabled := by
  obtain ⟨_, e⟩ := h
  rw [e]

end Keeps

/-- No general transfer is running, and no word is left for one. -/
structure Resting (r : Rig β) : Prop where
  inTransfer : r.controller.activity.inTransfer = false
  ranInside : r.controller.activity.ranInside = ∅

theorem Resting.notMem {r : Rig β} (h : r.Resting) (i : ChannelId) :
    i ∉ r.controller.activity.ranInside := by
  rw [h.ranInside]
  exact ChannelMask.not_mem_empty i

end Rig

end DmaController
