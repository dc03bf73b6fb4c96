import DmaController.Memory

/-! # The stream decoder

A cartridge may carry a decoder for compressed data.  Its output is not computed here but handed
over beforehand; a general transfer from a fixed address takes its bytes from there if the ready
register is not zero.  The register is used up by the transfer that looks at it. -/

namespace DmaController

/-- The ready register and the decoded bytes. -/
structure StreamDecoder where
  ready : UInt8
  decoded : Memory

namespace StreamDecoder

/-- The number of decoded bytes that can be held. -/
def capacity : Nat := 0x10000

/-- A decoder that is not ready and holds zeros. -/
def powerOn : StreamDecoder := ⟨0, .zero⟩

instance : Inhabited StreamDecoder := ⟨powerOn⟩

/-- Whether the decoder is ready; from here on it is not. -/
def takeReady (d : StreamDecoder) : Bool × StreamDecoder := (d.ready != 0, { d with ready := 0 })

/-- Puts bytes at the front of the decoded bytes, as many as can be held. -/
def hold (d : StreamDecoder) (bytes : List UInt8) : StreamDecoder :=
  { d with decoded := d.decoded.load 0 (bytes.take capacity) }

/-- The decoded byte at a position. -/
def byte (d : StreamDecoder) (position : UInt16) : UInt8 := d.decoded.get position.toNat

end StreamDecoder

end DmaController
