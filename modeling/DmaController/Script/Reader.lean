import DmaController.Script.Command
import DmaController.Text.Blank

/-! # Reading scripts

A line is cut off at its comment, white space is taken off its ends, and what remains is split
into words at spaces and tabs.  A line without words is skipped.  The first word and the number of
words decide what the others have to be; the first line that is no command ends the reading. -/

namespace DmaController

/-- Reads a number up to `limit` in base sixteen, or fails as `wrong` says. -/
def readUpTo (limit : Nat) (wrong : String → CommandError) (word : List Char) :
    Except CommandError Nat :=
  match Numeral.readHex word with
  | some n => if n ≤ limit then .ok n else .error (wrong (String.ofList word))
  | none => .error (wrong (String.ofList word))

/-- Reads a byte. -/
def readByte (word : List Char) : Except CommandError UInt8 :=
  (readUpTo 0xFF .invalidByte word).map UInt8.ofNat

/-- Reads an address. -/
def readAddress (word : List Char) : Except CommandError Address :=
  (readUpTo 0xFFFFFF .invalidAddress word).map UInt32.ofNat

/-- Reads bytes, up to the first that is none. -/
def readBytes : List (List Char) → Except CommandError (List UInt8)
  | [] => .ok []
  | w :: ws =>
    match readByte w with
    | .error e => .error e
    | .ok v => (readBytes ws).map (v :: ·)

namespace Topic

/-- Drops one prefix of a numeral in base sixteen. -/
def dropOnePrefix : List Char → List Char
  | '0' :: 'x' :: cs => cs
  | '$' :: cs => cs
  | cs => cs

/-- Whether a text is a numeral in base sixteen with at most one prefix. -/
def isNumeral (cs : List Char) : Bool :=
  let digits := dropOnePrefix cs
  !digits.isEmpty && digits.all fun c => (Numeral.hexDigit? c).isSome

/-- The text between `mem[` and the closing bracket, where the word has this form. -/
def memoryOperand? : List Char → Option (List Char)
  | 'm' :: 'e' :: 'm' :: '[' :: cs =>
    match cs.getLast? with
    | some ']' => if isNumeral cs.dropLast then some cs.dropLast else none
    | _ => none
  | _ => none

/-- The channel a word names. -/
def channel? : List Char → Option ChannelId
  | ['c', 'h', d] => if '0' ≤ d ∧ d ≤ '7' then some (channelNumber (d.toNat - '0'.toNat)) else none
  | _ => none

/-- Reads what is to be printed. -/
def read (word : List Char) : Except CommandError Topic :=
  if word = "hdma".toList then .ok lineTransfers
  else if word = "oam".toList then .ok spriteAddress
  else if word = "flags".toList then .ok activity
  else if word = "clock".toList then .ok beam
  else if word = "trace".toList then .ok trace
  else
    match channel? word with
    | some i => .ok (channel i)
    | none =>
      match memoryOperand? word with
      | some operand => (readAddress operand).map memory
      | none => .error (.notPrintable (String.ofList word))

end Topic

namespace Command

/-- Reads a switch. -/
def readSwitch (word : List Char) : Except CommandError Bool :=
  if word = "on".toList then .ok true
  else if word = "off".toList then .ok false
  else .error (.notASwitch (String.ofList word))

/-- Reads the operands of the command called `name`; `none` if it does not take this number of
them, or if there is no such command. -/
def readOperands? (name : String) (operands : List (List Char)) :
    Option (Except CommandError Command) :=
  match name, operands with
  | "w", [a, v] =>
    some (do
      let a ← readAddress a
      let v ← readByte v
      return write a v)
  | "poke", a :: v :: vs =>
    some (do
      let a ← readAddress a
      let bytes ← readBytes (v :: vs)
      return poke a bytes)
  | "dma", [m] => some ((readByte m).map (write 0x420B))
  | "lines", [n] => some (((Numeral.readNat32 n).mapError .invalidCount).map runLines)
  | "frame", _ => some (.ok runFrame)
  | "set", [name, value] => some (.ok (assign (String.ofList name) (String.ofList value)))
  | "p", [topic] => some ((Topic.read topic).map print)
  | "trace", [switch] => some ((readSwitch switch).map trace)
  | _, _ => none

/-- Reads a command from its words. -/
def read (name : List Char) (operands : List (List Char)) : Except CommandError Command :=
  (readOperands? (String.ofList name) operands).getD
    (.error (.unknownCommand (String.ofList name)))

end Command

namespace Script

/-- The words of a line, without its comment. -/
def wordsOf (line : List Char) : List (List Char) :=
  splitWords (trimBlanks (line.takeWhile (· ≠ '#')))

/-- Reads lines, of which the first has the number `n`. -/
def readLines (n : Nat) :
    List (List Char) → Except (Located CommandError) (List (Located Command))
  | [] => .ok []
  | line :: lines =>
    match wordsOf line with
    | [] => readLines (n + 1) lines
    | name :: operands =>
      match Command.read name operands with
      | .error e => .error ⟨n, e⟩
      | .ok c => (readLines (n + 1) lines).map (⟨n, c⟩ :: ·)

/-- Reads a script. -/
def read (source : String) : Except (Located CommandError) Script :=
  (readLines 1 (splitLines source.toList)).map Script.mk

end Script

end DmaController
