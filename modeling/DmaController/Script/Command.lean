import DmaController.Address
import DmaController.ChannelMask
import DmaController.Text.Numeral

/-! # Script commands

A script drives a console line by line:

| line                     | meaning                                          |
|--------------------------|--------------------------------------------------|
| `w <addr> <value>`       | the processor writes a byte                      |
| `poke <addr> <bytes...>` | bytes are stored straight into memory            |
| `dma <mask>`             | short for `w 420b <mask>`                        |
| `lines <n>`              | the console idles for `n` lines                  |
| `frame`                  | the console idles until the next frame           |
| `set <name> <value>`     | a setting is changed                             |
| `p <what>`               | something is printed                             |
| `trace on`, `trace off`  | writes to the B-bus are traced, or not           |

Numbers are in base sixteen, with `0x` or `$` before them if wanted, but for the number of lines.
A `#` starts a comment.

What can be printed is a channel (`ch0` to `ch7`), a byte of memory (`mem[<addr>]`), and under the
names `hdma`, `oam`, `flags`, `clock` and `trace` the state of line transfers, the sprite table
address, the record of activity, the beam, and the traced writes. -/

namespace DmaController

/-- What a script can print. -/
inductive Topic where
  | channel (i : ChannelId)
  | memory (a : Address)
  | lineTransfers
  | spriteAddress
  | activity
  | beam
  | trace
deriving DecidableEq, Repr

/-- A command of a script. -/
inductive Command where
  | write (a : Address) (v : UInt8)
  | poke (a : Address) (bytes : List UInt8)
  | runLines (n : Nat)
  | runFrame
  | assign (name value : String)
  | print (topic : Topic)
  | trace (on : Bool)
deriving DecidableEq, Repr

/-- Why a line is not a command. -/
inductive CommandError where
  | unknownCommand (word : String)
  | invalidByte (word : String)
  | invalidAddress (word : String)
  | invalidCount (cause : NumeralError)
  | notPrintable (word : String)
  | notASwitch (word : String)
deriving DecidableEq, Repr

/-- The wording of an error. -/
def CommandError.message : CommandError → String
  | unknownCommand word => "unknown command: " ++ word
  | invalidByte word => "invalid byte: " ++ word
  | invalidAddress word => "invalid address: " ++ word
  | invalidCount cause => cause.message
  | notPrintable word => "cannot print " ++ word
  | notASwitch word => "expected on/off, got " ++ word

/-- Something on a line of a script; lines are counted from 1. -/
structure Located (α : Type) where
  line : Nat
  value : α
deriving DecidableEq, Repr

/-- The wording of an error on a line, given the wording of the error itself. -/
def Located.message {α : Type} (wording : α → String) (e : Located α) : String :=
  "line " ++ toString e.line ++ ": " ++ wording e.value

/-- The commands of a script, each with its line. -/
structure Script where
  commands : List (Located Command)
deriving DecidableEq, Repr

end DmaController
