import Bitpress.Yaml.Scalar

/-!
Writing data trees as YAML text. Items of a list stand as deep as the key of the
list, entries of a map two columns deeper than the key of the map. A text is
written plain where it reads back as itself, otherwise in quotes, and a text with
line breaks stands in a block of its own lines.
-/

namespace Bitpress.Yaml

/-! ### What a text allows -/

/-- Whether a character can be written as it is. -/
def isPrintable (c : Char) : Bool :=
  let n := c.toNat
  n == 10 || (0x20 ≤ n && n ≤ 0x7E) || (0xA0 ≤ n && n != 0xFEFF && n != 0xFFFE && n != 0xFFFF)

/-- Characters that end a word. -/
def endsWord (c : Option Char) : Bool := c.all fun c => isSpaceOrTab c || isBreak c || c == '\x00'

/-- Whether a character that stands between two others has a meaning of its own there. -/
def hasMeaning (before : Option Char) (c : Char) (next : Option Char) : Bool :=
  match before with
  | none =>
    "#,[]\x7b\x7d&*!|>'\"%@".toList.contains c || c == '\u0060' ||
      (endsWord next && (c == '?' || c == ':' || c == '-'))
  | some b => (c == ':' && endsWord next) || (c == '#' && endsWord (some b))

/-- Every character with the ones before and after it. -/
def neighbours (before : Option Char) : List Char → List (Option Char × Char × Option Char)
  | [] => []
  | c :: rest => (before, c, rest.head?) :: neighbours (some c) rest

/-- The first of two characters that stand side by side, and the second. -/
def hasPair (first second : Char → Bool) (cs : List Char) : Bool :=
  (neighbours none cs).any fun (b, c, _) => b.any first && second c

def isSpace (c : Char) : Bool := c == ' '

/-- What the characters of a text allow. -/
structure TextShape where
  severalLines : Bool
  plain : Bool
  quoted : Bool
  block : Bool

def shapeOf (cs : List Char) : TextShape :=
  let marks := ['-', '-', '-'].isPrefixOf cs || ['.', '.', '.'].isPrefixOf cs ||
    (neighbours none cs).any fun (b, c, n) => hasMeaning b c n
  let lines := cs.any isBreak
  let special := cs.any (fun c => !isPrintable c) || hasPair isSpace isBreak cs
  let spaceEnds := cs.head?.any isSpace || cs.getLast?.any isSpace
  let spaceAfterBreak := hasPair isBreak isSpace cs
  if cs.isEmpty then ⟨false, true, true, false⟩
  else
    ⟨lines, !(marks || lines || special || spaceEnds), !(special || spaceAfterBreak),
      !(special || cs.getLast?.any isSpace)⟩

inductive TextStyle
  | plain
  | quoted
  | escaped
  | block
deriving DecidableEq

/-- Whether a text written plain would be read as something else. -/
def isAmbiguous (s : String) : Bool :=
  match plainTree s with
  | .ok (.str _) => digitsButText s.toList
  | _ => true

def styleOf (s : String) : TextStyle :=
  let cs := s.toList
  let shape := shapeOf cs
  if cs.contains '\n' then if shape.block then .block else .escaped
  else if shape.plain && !isAmbiguous s then .plain
  else if shape.quoted then .quoted
  else .escaped

/-! ### Scalars -/

def spaces (n : Nat) : List Char := List.replicate n ' '

/-- The lines of a text, each at a column; empty lines stay empty. -/
def indentLines (column : Nat) (lineStart : Bool) : List Char → List Char
  | [] => []
  | c :: rest =>
    if isBreak c then c :: indentLines column true rest
    else (if lineStart then spaces column else []) ++ c :: indentLines column false rest

/-- A text in single quotes: a quote is written twice, and a line goes on at a column. -/
def inQuotes (column : Nat) (cs : List Char) : List Char :=
  let body := indentLines column false (cs.flatMap fun c => if c = '\'' then ['\'', '\''] else [c])
  '\'' :: body ++ (if cs.getLast?.any isBreak then spaces column else []) ++ ['\'']

def hexPadded (width n : Nat) : List Char :=
  let ds := (Nat.toDigits 16 n).map Char.toUpper
  List.replicate (width - ds.length) '0' ++ ds

/-- The escapes that are written with one character. -/
def shortEscapes : List (Char × Char) :=
  [('\x00', '0'), ('\x07', 'a'), ('\x08', 'b'), ('\t', 't'), ('\n', 'n'), ('\x0b', 'v'), ('\x0c', 'f'),
   ('\r', 'r'), ('\x1b', 'e'), ('"', '"'), ('\\', '\\'), ('\u0085', 'N'), ('\u00a0', '_'),
   ('\u2028', 'L'), ('\u2029', 'P')]

def escapedChar (c : Char) : List Char :=
  if isPrintable c && !isBreak c && c != '"' && c != '\\' then [c]
  else
    match shortEscapes.lookup c with
    | some e => ['\\', e]
    | none =>
      let n := c.toNat
      if n ≤ 0xFF then '\\' :: 'x' :: hexPadded 2 n
      else if n ≤ 0xFFFF then '\\' :: 'u' :: hexPadded 4 n
      else '\\' :: 'U' :: hexPadded 8 n

/-- A text in double quotes. -/
def inDoubleQuotes (cs : List Char) : List Char := '"' :: cs.flatMap escapedChar ++ ['"']

/-- What the mark of a block says: the indentation, if the first line cannot show it, and what becomes
of the breaks at the end. -/
def blockMarks (cs : List Char) : List Char :=
  (if cs.head?.any fun c => isSpace c || isBreak c then ['2'] else []) ++
    match cs.reverse with
    | [] => ['-']
    | [c] => if isBreak c then ['+'] else ['-']
    | c :: b :: _ => if !isBreak c then ['-'] else if isBreak b then ['+'] else []

/-- A text as a block of lines, up to the break after its last line. -/
def inBlock (column : Nat) (cs : List Char) : List Char :=
  '|' :: blockMarks cs ++ '\n' :: indentLines column true cs ++
    (if cs.getLast?.any isBreak then [] else ['\n'])

/-- A text whose further lines stand at a column, with the break after it. -/
def textAt (column : Nat) (s : String) : List Char :=
  match styleOf s with
  | .plain => s.toList ++ ['\n']
  | .quoted => inQuotes column s.toList ++ ['\n']
  | .escaped => inDoubleQuotes s.toList ++ ['\n']
  | .block => inBlock column s.toList

/-! ### Trees -/

/-- The longest key, in bytes, that stands before its colon on one line. -/
def longestKey : Nat := 128

def isSimpleKey (key : String) : Bool := !(shapeOf key.toList).severalLines && key.utf8ByteSize ≤ longestKey

/-- A key on one line. An empty one stands in quotes. -/
def keyChars (column : Nat) (key : String) : List Char := (textAt column key).dropLast

mutual

/-- What follows the mark of an item, or of a key or value on a line of its own, at a column. -/
def afterMark (column : Nat) : Tree → List Char
  | .list [] => " []\n".toList
  | .map [] => " \x7b\x7d\n".toList
  | .list (t :: rest) => ' ' :: '-' :: afterMark (column + 2) t ++ items (column + 2) rest
  | .map (e :: rest) => ' ' :: entry (column + 2) e ++ entries (column + 2) rest
  | .str s => ' ' :: textAt (column + 2) s
  | .num n => ' ' :: (n.textWith .plainData).toList ++ ['\n']
  | .bool b => (if b then " true\n" else " false\n").toList
  | .null => " null\n".toList

/-- What follows the colon after a key at a column. -/
def afterColon (column : Nat) : Tree → List Char
  | .list (t :: rest) => '\n' :: items column (t :: rest)
  | .map (e :: rest) => '\n' :: entries (column + 2) (e :: rest)
  | .list [] => " []\n".toList
  | .map [] => " \x7b\x7d\n".toList
  | .str s => ' ' :: textAt (column + 2) s
  | .num n => ' ' :: (n.textWith .plainData).toList ++ ['\n']
  | .bool b => (if b then " true\n" else " false\n").toList
  | .null => " null\n".toList

/-- The lines of the items of a list. -/
def items (column : Nat) : List Tree → List Char
  | [] => []
  | t :: rest => spaces column ++ '-' :: afterMark column t ++ items column rest

/-- An entry of a map, without the white space before it. -/
def entry (column : Nat) : String × Tree → List Char
  | (k, t) =>
    if isSimpleKey k then keyChars (column + 2) k ++ ':' :: afterColon column t
    else '?' :: ' ' :: textAt (column + 2) k ++ spaces column ++ ':' :: afterMark column t

/-- The lines of the entries of a map. -/
def entries (column : Nat) : List (String × Tree) → List Char
  | [] => []
  | e :: rest => spaces column ++ entry column e ++ entries column rest

end

/-- The YAML text of a tree. -/
def write : Tree → String
  | .map (e :: rest) => String.ofList (entries 0 (e :: rest))
  | .list (t :: rest) => String.ofList (items 0 (t :: rest))
  | t => String.ofList ((afterMark 0 t).drop 1)

end Bitpress.Yaml
