/-! # Blank characters

The characters with the property of being white space, twenty-five of them, and the two operations
on text that the scripts need: cutting blanks off both ends of a line, and splitting a line into
words, which only spaces and tabs keep apart. -/

namespace DmaController

/-- The code points of white space, as first and last of each range. -/
def blankRanges : List (Nat × Nat) := [
  (0x0009, 0x000D), (0x0020, 0x0020), (0x0085, 0x0085), (0x00A0, 0x00A0), (0x1680, 0x1680),
  (0x2000, 0x200A), (0x2028, 0x2029), (0x202F, 0x202F), (0x205F, 0x205F), (0x3000, 0x3000)]

/-- Whether a character is white space. -/
def isBlank (c : Char) : Bool :=
  blankRanges.any fun range => decide (range.1 ≤ c.toNat) && decide (c.toNat ≤ range.2)

/-- The text without the white space at its ends. -/
def trimBlanks (cs : List Char) : List Char :=
  ((cs.dropWhile isBlank).reverse.dropWhile isBlank).reverse

/-- Whether a character separates words. -/
def isSeparator (c : Char) : Bool := c == ' ' || c == '\t'

/-- Whether a text starts inside a word. -/
def startsInWord (cs : List Char) : Bool := cs.head?.any fun c => !isSeparator c

/-- The words of a text: the longest runs without a separator. -/
def splitWords : List Char → List (List Char)
  | [] => []
  | c :: cs =>
    if isSeparator c then splitWords cs
    else if startsInWord cs then
      match splitWords cs with
      | w :: ws => (c :: w) :: ws
      | [] => [[c]]
    else [c] :: splitWords cs

/-- The lines of a text; a line feed ends a line, and the last line need not have one. -/
def splitLines : List Char → List (List Char)
  | [] => []
  | c :: cs =>
    if c = '\n' then [] :: splitLines cs
    else
      match splitLines cs with
      | l :: ls => (c :: l) :: ls
      | [] => [[c]]

theorem isBlank_of_isSeparator {c : Char} (h : isSeparator c = true) : isBlank c = true := by
  simp only [isSeparator, Bool.or_eq_true, beq_iff_eq] at h
  rcases h with rfl | rfl <;> decide

end DmaController
