import Bitpress.Text.Category

/-!
Texts in double quotes, as messages show them: quotes and backslashes are
escaped, and so is every character that would not be seen by itself.
-/

namespace Bitpress.Text

/-- Characters that join the one before them without being marks. -/
def joiners : List Nat :=
  [0x9BE, 0x9D7, 0xB3E, 0xB57, 0xBBE, 0xBD7, 0xCC2, 0xCD5, 0xCD6, 0xD3E, 0xD57, 0xDCF, 0xDDF,
   0x1B35, 0x302E, 0x302F, 0xFF9E, 0xFF9F, 0x1133E, 0x11357, 0x114B0, 0x114BD, 0x115AF,
   0x11930, 0x1D165, 0x1D16E, 0x1D16F, 0x1D170, 0x1D171, 0x1D172]

/-- Whether a character only extends the one before it. -/
def extendsPrevious (c : Char) : Bool :=
  128 ≤ c.toNat && ((Category.of c matches .mn | .me) || joiners.contains c.toNat)

/-- Whether a character is seen by itself; of the separators only the space is. -/
def isVisible (c : Char) : Bool :=
  if c.toNat < 127 then 32 ≤ c.toNat
  else !((Category.of c).isOther || (Category.of c).isSeparator)

def hexDigits (n : Nat) : List Char := Nat.toDigits 16 n

def quotedChar (c : Char) : List Char :=
  if c = '\x00' then ['\\', '0']
  else if c = '\t' then ['\\', 't']
  else if c = '\r' then ['\\', 'r']
  else if c = '\n' then ['\\', 'n']
  else if c = '"' then ['\\', '"']
  else if c = '\\' then ['\\', '\\']
  else if isVisible c && !extendsPrevious c then [c]
  else ['\\', 'u', '\x7b'] ++ hexDigits c.toNat ++ ['\x7d']

def quoted (s : String) : String := String.ofList ('"' :: s.toList.flatMap quotedChar ++ ['"'])

end Bitpress.Text
