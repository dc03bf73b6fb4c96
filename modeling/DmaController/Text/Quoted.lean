import DmaController.Text.Shown

/-! # Quoted text

Text between quotation marks, so that every character can be told: a mark, a backslash and the
usual control characters are written after a backslash, characters that are not shown as they are
by their code points, and all others as themselves. -/

namespace DmaController

namespace Quoted

/-- The form of a character between quotation marks. -/
def encodeChar (c : Char) : List Char :=
  if c = '"' then ['\\', '"']
  else if c = '\\' then ['\\', '\\']
  else if c = '\x00' then ['\\', '0']
  else if c = '\t' then ['\\', 't']
  else if c = '\r' then ['\\', 'r']
  else if c = '\n' then ['\\', 'n']
  else if isShown c then [c]
  else ['\\', 'u', '{'] ++ Nat.toDigits 16 c.toNat ++ ['}']

/-- A text in quotation marks. -/
def encode (text : String) : String :=
  String.ofList ('"' :: text.toList.flatMap encodeChar ++ ['"'])

end Quoted

end DmaController
