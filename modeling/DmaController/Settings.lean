import DmaController.Text.Numeral

/-! # Settings

What can be adjusted about a controller: two delays, whether a stream decoder is fitted, and
whether line transfers to the sprite table reset its address.  A setting is changed by name and
value, both given as text; a change that is refused says why. -/

namespace DmaController

/-- Master cycles in one slow memory access; every byte moved costs this much. -/
def slowAccess : Int := 8

/-- The adjustable properties of a controller. -/
structure Settings where
  /-- Cycles lost when a transfer takes the buses from the processor. -/
  syncDelay : Int
  /-- Cycles by which a pending interrupt is pushed back after a general transfer. -/
  interruptDelay : Int
  /-- Whether a stream decoder is fitted. -/
  decoderFitted : Bool
  /-- Whether a line transfer to `$2104` resets the sprite table address. -/
  resetsSpriteAddress : Bool
deriving DecidableEq, Repr

/-- Why a setting was not changed. -/
inductive SettingError where
  | unknown (name : String)
  | notASwitch (value : String)
  | notANumber (cause : NumeralError)
deriving DecidableEq, Repr

/-- The wording of an error. -/
def SettingError.message : SettingError → String
  | unknown name => "unknown setting: " ++ name
  | notASwitch value => "expected on/off, got " ++ value
  | notANumber cause => cause.message

namespace Settings

/-- The settings of a plain console. -/
def standard : Settings where
  syncDelay := 18
  interruptDelay := 24
  decoderFitted := false
  resetsSpriteAddress := true

instance : Inhabited Settings := ⟨standard⟩

/-- Reads a switch. -/
def readSwitch (value : String) : Except SettingError Bool :=
  if value ∈ ["on", "true", "1"] then .ok true
  else if value ∈ ["off", "false", "0"] then .ok false
  else .error (.notASwitch value)

/-- Reads a number of cycles. -/
def readCycles (value : String) : Except SettingError Int :=
  (Numeral.readInt32 value.toList).mapError .notANumber

/-- Changes the setting called `name`. -/
def assign (s : Settings) (name value : String) : Except SettingError Settings :=
  if name = "sdd1" then
    (readSwitch value).map fun b => { s with decoderFitted := b }
  else if name = "oam-fix" then
    (readSwitch value).map fun b => { s with resetsSpriteAddress := b }
  else if name = "dma-cpu-sync" then
    (readCycles value).map fun n => { s with syncDelay := n }
  else if name = "nmi-dma-delay" then
    (readCycles value).map fun n => { s with interruptDelay := n }
  else .error (.unknown name)

end Settings

end DmaController
