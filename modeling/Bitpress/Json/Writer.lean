import Bitpress.Tree

/-!
Writing data trees as JSON text, on one line or with indentation.
-/

namespace Bitpress.Json

def hexDigit (n : Nat) : Char := (Nat.toDigits 16 n).headD '0'

/-- Only quotes, backslashes and control characters are escaped. -/
def escapedChar (c : Char) : List Char :=
  if c = '"' then ['\\', '"']
  else if c = '\\' then ['\\', '\\']
  else if c = '\n' then ['\\', 'n']
  else if c = '\r' then ['\\', 'r']
  else if c = '\t' then ['\\', 't']
  else if c = '\x08' then ['\\', 'b']
  else if c = '\x0c' then ['\\', 'f']
  else if c.toNat < 32 then ['\\', 'u', '0', '0', hexDigit (c.toNat / 16), hexDigit (c.toNat % 16)]
  else [c]

def quote (s : String) : String := String.ofList ('"' :: s.toList.flatMap escapedChar ++ ['"'])

mutual

/-- The text of a tree on one line without spaces. -/
def compact : Tree → String
  | .list items => "[" ++ compactItems items ++ "]"
  | .map entries => "\x7b" ++ compactEntries entries ++ "\x7d"
  | .null => "null"
  | .bool b => if b then "true" else "false"
  | .num n => n.text
  | .str s => quote s

def compactItems : List Tree → String
  | [] => ""
  | [t] => compact t
  | t :: rest => compact t ++ "," ++ compactItems rest

def compactEntries : List (String × Tree) → String
  | [] => ""
  | [(k, t)] => quote k ++ ":" ++ compact t
  | (k, t) :: rest => quote k ++ ":" ++ compact t ++ "," ++ compactEntries rest

end

def newline (level : Nat) : String := String.ofList ('\n' :: List.replicate (2 * level) ' ')

mutual

/-- The text of a tree with a line for each item and entry, two spaces deeper at each level. -/
def indented (level : Nat) : Tree → String
  | .list [] => "[]"
  | .list (t :: rest) =>
    "[" ++ newline (level + 1) ++ indentedItems (level + 1) (t :: rest) ++ newline level ++ "]"
  | .map [] => "\x7b\x7d"
  | .map (e :: rest) =>
    "\x7b" ++ newline (level + 1) ++ indentedEntries (level + 1) (e :: rest) ++ newline level ++ "\x7d"
  | .null => "null"
  | .bool b => if b then "true" else "false"
  | .num n => n.text
  | .str s => quote s

def indentedItems (level : Nat) : List Tree → String
  | [] => ""
  | [t] => indented level t
  | t :: rest => indented level t ++ "," ++ newline level ++ indentedItems level rest

def indentedEntries (level : Nat) : List (String × Tree) → String
  | [] => ""
  | [(k, t)] => quote k ++ ": " ++ indented level t
  | (k, t) :: rest => quote k ++ ": " ++ indented level t ++ "," ++ newline level ++ indentedEntries level rest

end

end Bitpress.Json
