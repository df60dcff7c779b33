/-!
A place in YAML text: the characters from there on, with line and column counted
from zero. A carriage return with a line feed is one line break.
-/

namespace Bitpress.Yaml

structure Cursor where
  rest : List Char
  index : Nat := 0
  line : Nat := 0
  column : Nat := 0

def isSpaceOrTab (c : Char) : Bool := c == ' ' || c == '\t'

def isBreak (c : Char) : Bool :=
  c == '\n' || c == '\r' || c == '\u0085' || c == '\u2028' || c == '\u2029'

/-- Characters of names of anchors and tags. -/
def isNameChar (c : Char) : Bool := c.isAlphanum || c == '_' || c == '-'

/-- The characters that YAML text may hold. -/
def isAllowed (c : Char) : Bool :=
  let n := c.toNat
  n == 9 || n == 10 || n == 13 || (0x20 ≤ n && n ≤ 0x7E) || n == 0x85 || (0xA0 ≤ n && n ≤ 0xD7FF) ||
    (0xE000 ≤ n && n ≤ 0xFFFD) || (0x10000 ≤ n && n ≤ 0x10FFFF)

namespace Cursor

def peek? (c : Cursor) : Option Char := c.rest.head?

/-- The character `n` places further on. -/
def peekAt? (c : Cursor) (n : Nat) : Option Char := c.rest[n]?

def atEnd (c : Cursor) : Bool := c.rest.isEmpty

def sees (c : Cursor) (ch : Char) : Bool := c.peek? == some ch

/-- Whether the character `n` places further on is blank, a break or the end. -/
def blankOrEndAt (c : Cursor) (n : Nat) : Bool := (c.peekAt? n).all fun ch => isSpaceOrTab ch || isBreak ch

def blankOrEnd (c : Cursor) : Bool := c.blankOrEndAt 0

def breakOrEnd (c : Cursor) : Bool := c.peek?.all isBreak

def seesBreak (c : Cursor) : Bool := c.peek?.any isBreak

def seesBlank (c : Cursor) : Bool := c.peek?.any isSpaceOrTab

/-- Passes characters of the line. -/
def skip (c : Cursor) (n : Nat) : Cursor :=
  { c with rest := c.rest.drop n, index := c.index + n, column := c.column + n }

/-- Passes one line break. -/
def skipBreak (c : Cursor) : Cursor :=
  match c.rest with
  | '\r' :: '\n' :: rest => ⟨rest, c.index + 2, c.line + 1, 0⟩
  | _ :: rest => ⟨rest, c.index + 1, c.line + 1, 0⟩
  | [] => c

/-- The text that a line break stands for. -/
def breakText (c : Cursor) : List Char :=
  match c.peek? with
  | some '\u2028' => ['\u2028']
  | some '\u2029' => ['\u2029']
  | some _ => ['\n']
  | none => []

/-- Passes the characters that satisfy a test and gives them. -/
def takeWhile (c : Cursor) (p : Char → Bool) : List Char × Cursor :=
  let taken := c.rest.takeWhile p
  (taken, c.skip taken.length)

/-- Whether a line with three equal characters, dashes or dots, begins here. -/
def atDocumentMark (c : Cursor) (ch : Char) : Bool :=
  c.column == 0 && c.peekAt? 0 == some ch && c.peekAt? 1 == some ch && c.peekAt? 2 == some ch &&
    c.blankOrEndAt 3

def atAnyDocumentMark (c : Cursor) : Bool := c.atDocumentMark '-' || c.atDocumentMark '.'

end Cursor

end Bitpress.Yaml
