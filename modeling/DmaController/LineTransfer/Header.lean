import DmaController.Rig

/-! # Table headers

The table of a line transfer is a list of entries.  Each entry opens with a header byte:

| header      | meaning                                              |
|-------------|------------------------------------------------------|
| `$00`       | the table ends here                                  |
| `$01`-`$7F` | that many lines, with a unit sent on the first alone |
| `$80`       | 128 lines, with a unit sent on each                  |
| `$81`-`$FF` | 1 to 127 lines, with a unit sent on each             |

In an indirect table a word follows the header: the offset of the entry's data.  Even the end of
an indirect table is followed by the fetch of a word, which lands in the `count` register. -/

namespace DmaController

/-- What a header byte says. -/
inductive Header where
  | stop
  | entry (lines : UInt8) (repeats : Bool)
deriving DecidableEq, Repr

/-- Takes a header byte apart. -/
def Header.ofByte (v : UInt8) : Header :=
  if v = 0 then stop
  else if v = 0x80 then entry 128 true
  else entry (v % 0x80) (decide (0x80 ≤ v))

namespace Rig

variable {β : Type} [Buses β]

/-- Ends the table of channel `i`, whose terminator lies at `table`.  An indirect table still has
its word fetched: behind the terminator if a channel with a higher number is active (`above`),
and otherwise starting on the terminator itself, in half the time. -/
def endTable (r : Rig β) (i : ChannelId) (above : Bool) : Rig β :=
  let c := { r.channel i with repeats := false, lines := 128, cache := none }
  if c.control.indirect then
    let word := if above then c.table + 1 else c.table
    let r := r.spend (if above then 2 * slowAccess else slowAccess)
    let (w, r) := r.readWord (.of c.bank word)
    r.setChannel i { c with count := w, table := word + 2 }
  else
    r.setChannel i { c with table := c.table + 1 }

/-- Opens an entry of the table of channel `i`: takes over its header, fetches the offset of
indirect data, and asks for direct access to the data. -/
def openEntry (r : Rig β) (i : ChannelId) (lines : UInt8) (repeats : Bool) : Rig β :=
  let c := r.channel i
  let c := { c with repeats := repeats, lines := lines, table := c.table + 1, pending := true }
  let (c, r) :=
    if c.control.indirect then
      let r := r.spend (2 * slowAccess)
      let (w, r) := r.readWord (.of c.bank c.table)
      ({ c with count := w, table := c.table + 2 }, r)
    else (c, r)
  let (p, r) := r.bytePointer (.of c.lineBank c.lineOffset)
  r.setChannel i { c with cache := p }

/-- Fetches the next header of channel `i`.  The answer is whether there was an entry. -/
def fetchHeader (r : Rig β) (i : ChannelId) : Bool × Rig β :=
  let c := r.channel i
  let above := r.controller.active.anyAbove i
  let (v, r) := r.read (.of c.bank c.table)
  let r := r.spend slowAccess
  match Header.ofByte v with
  | .stop => (false, r.endTable i above)
  | .entry lines repeats => (true, r.openEntry i lines repeats)

end Rig

end DmaController
