import Bitpress.Binary64
import Bitpress.Template.Fault
import Bitpress.Text.Basic
import Bitpress.Text.Cut

/-!
The tokens of a template. Running text is kept as it is. Variables stand in
`\VAR{ }`, statements in `\BLOCK{ }` or on a line of their own after `%%`, and
comments in `\#{ }` or after `%#` to the end of the line.

A hyphen next to a marker removes the white space on its other side. The line
break right behind a statement or a comment is dropped; a plus sign keeps it.
What cannot be read is a last token that holds the fault, so that a parser meets
it only if it gets there.
-/

namespace Bitpress.Template

inductive Token
  | text (s : String)
  | variableStart
  | variableEnd
  | blockStart
  | blockEnd
  | name (s : String)
  | str (s : String)
  | int (n : Nat)
  | real (x : Binary64)
  | symbol (s : String)
  | fault (f : TemplateFault)
deriving DecidableEq, Inhabited

namespace Token

/-- What opens a part of a template that is not running text. -/
inductive Marker
  | variable
  | block
  | comment
  | lineBlock
  | lineComment
deriving DecidableEq

/-- What a marker asks of the white space next to it. -/
inductive Spacing
  | usual
  | keep
  | remove
deriving DecidableEq

def Spacing.ofChar : Option Char → Spacing
  | some '-' => .remove
  | some '+' => .keep
  | _ => .usual

/-- The spacing sign at the beginning of a text, and what follows it. -/
def spacingAt (cs : List Char) : Spacing × List Char :=
  match Spacing.ofChar cs.head? with
  | .usual => (.usual, cs)
  | s => (s, cs.drop 1)

def variableOpening : List Char := "\\VAR\x7b".toList

def blockOpening : List Char := "\\BLOCK\x7b".toList

def commentOpening : List Char := "\\#\x7b".toList

def closing : List Char := ['\x7d']

/-- The marker at the beginning of a text, and what follows it. A statement on a line of its own
has only white space before it. -/
def markerAt? (startsLine : Bool) (cs : List Char) : Option (Marker × List Char) :=
  let look (m : Marker) (word : List Char) : Option (Marker × List Char) :=
    (Text.after? word cs).map fun rest => (m, rest)
  look .variable variableOpening <|> look .block blockOpening <|> look .comment commentOpening <|>
    look .lineComment ['%', '#'] <|> if startsLine then look .lineBlock ['%', '%'] else none

/-- The text before the first marker, the marker, and what follows it. -/
def nextMarker (startsLine : Bool) (cs : List Char) :
    List Char × Option (Marker × List Char) :=
  match markerAt? startsLine cs with
  | some found => ([], some found)
  | none =>
    match cs with
    | [] => ([], none)
    | '%' :: '%' :: rest =>
      let (before, found) := nextMarker false rest
      ('%' :: '%' :: before, found)
    | c :: rest =>
      let (before, found) := nextMarker (c == '\n' || c == '\r' || (startsLine && Text.isBlank c)) rest
      (c :: before, found)

/-- Drops a line break at the beginning of a text. -/
def skipBreak (cs : List Char) : List Char :=
  let cs := if cs.head? = some '\r' then cs.drop 1 else cs
  if cs.head? = some '\n' then cs.drop 1 else cs

/-- What a closing marker leaves of the text after it. -/
def afterClosing (s : Spacing) (cs : List Char) : List Char :=
  match s with
  | .usual => skipBreak cs
  | .keep => cs
  | .remove => Text.skipBlanks cs

def isBreak (c : Char) : Bool := c == '\n' || c == '\r'

/-- Drops the indentation at the end of a text, if nothing else stands on its last line. -/
def dropIndentation (cs : List Char) : List Char :=
  let trimmed := (cs.reverse.dropWhile fun c => Text.isBlank c && !isBreak c).reverse
  if trimmed.getLast?.all isBreak then trimmed else cs

/-- What an opening marker leaves of the text before it. -/
def beforeOpening (m : Marker) (s : Spacing) (cs : List Char) : List Char :=
  match s with
  | .remove => Text.dropBlanksAtEnd cs
  | .keep => cs
  | .usual => if m = .lineBlock ∨ m = .lineComment then dropIndentation cs else cs

def isSpace (c : Char) : Bool := c == ' ' || c == '\t' || c == '\n' || c == '\x0c' || c == '\r'

/-- Reads a statement that is a single word up to its closing marker. -/
def soleWord? (word : String) (cs : List Char) : Option (Spacing × List Char) := do
  let rest ← Text.after? word.toList (cs.dropWhile isSpace)
  let (spacing, rest) := spacingAt (rest.dropWhile isSpace)
  return (spacing, ← Text.after? closing rest)

/-- The text up to the end of a verbatim part, the spacing on both sides of that end, and what
follows. -/
def verbatim? (cs : List Char) : Option (List Char × Spacing × Spacing × List Char) :=
  let ending := (Text.after? blockOpening cs).bind fun rest =>
    let (before, inner) := spacingAt rest
    (soleWord? "endraw" inner).map fun (after, rest) => (before, after, rest)
  match ending with
  | some (before, after, rest) => some ([], before, after, rest)
  | none =>
    match cs with
    | [] => none
    | c :: cs => (verbatim? cs).map fun (chars, found) => (c :: chars, found)

/-- The text of a verbatim part between its markers. -/
def verbatimText (start ending : Spacing) (cs : List Char) : List Char :=
  let cs := match start with
    | .usual => skipBreak cs
    | .keep => cs
    | .remove => Text.skipBlanks cs
  if ending = .remove then Text.dropBlanksAtEnd cs else cs

/-! ### Inside of markers -/

def isNameStart (c : Char) : Bool := c == '_' || c.isAlpha

def isNamePart (c : Char) : Bool := c == '_' || c.isAlphanum

def hexValue? (c : Char) : Option Nat :=
  if c.isDigit then some (c.toNat - '0'.toNat)
  else if 'a' ≤ c ∧ c ≤ 'f' then some (c.toNat - 'a'.toNat + 10)
  else if 'A' ≤ c ∧ c ≤ 'F' then some (c.toNat - 'A'.toNat + 10)
  else none

def hexNumber? (cs : List Char) : Option Nat :=
  if cs.length = 4 then cs.foldlM (fun n c => (hexValue? c).map (n * 16 + ·)) 0 else none

/-- The character of an escape with a single letter. -/
def escapedChar? (c : Char) : Option Char :=
  match c with
  | '"' | '\\' | '/' | '\'' => some c
  | 'b' => some '\x08'
  | 'f' => some '\x0c'
  | 'n' => some '\n'
  | 'r' => some '\r'
  | 't' => some '\t'
  | _ => none

/-- Carries out the escapes of a quoted text. Two halves of a pair make one character. -/
def unescape? (fuel : Nat) (cs : List Char) : Option (List Char) :=
  match fuel, cs with
  | _, [] => some []
  | 0, _ => none
  | fuel + 1, '\\' :: 'u' :: rest => do
    let unit ← hexNumber? (rest.take 4)
    let rest := rest.drop 4
    if 0xD800 ≤ unit ∧ unit < 0xDC00 then
      let rest ← Text.after? ['\\', 'u'] rest
      let low ← hexNumber? (rest.take 4)
      if 0xDC00 ≤ low ∧ low < 0xE000 then
        return .ofNat (0x10000 + (unit - 0xD800) * 1024 + (low - 0xDC00)) ::
          (← unescape? fuel (rest.drop 4))
      else none
    else if 0xDC00 ≤ unit ∧ unit < 0xE000 then none
    else return .ofNat unit :: (← unescape? fuel rest)
  | fuel + 1, '\\' :: c :: rest => do return (← escapedChar? c) :: (← unescape? fuel rest)
  | _, ['\\'] => none
  | fuel + 1, c :: rest => do return c :: (← unescape? fuel rest)

/-- The text up to a quotation mark that no backslash precedes, and what follows it. -/
def quotation? (mark : Char) : List Char → Option (List Char × List Char)
  | [] => none
  | '\\' :: c :: rest => (quotation? mark rest).map fun (inner, after) => ('\\' :: c :: inner, after)
  | c :: rest =>
    if c = mark then some ([], rest)
    else (quotation? mark rest).map fun (inner, after) => (c :: inner, after)

/-- The parts of a number that decide which characters may follow. -/
inductive NumberPart
  | whole
  | fraction
  | power
  | powerDigits
deriving DecidableEq

def NumberPart.next? : NumberPart → Char → Option NumberPart
  | .whole, '.' => some .fraction
  | .whole, 'e' | .whole, 'E' | .fraction, 'e' | .fraction, 'E' => some .power
  | .power, '+' | .power, '-' => some .powerDigits
  | part, c =>
    if c.isDigit then some (if part = .power then .powerDigits else part)
    else if c = '_' then some part
    else none

/-- The characters of a decimal number, the part it ends in, and what follows it. -/
def numberText (part : NumberPart) : List Char → List Char × NumberPart × List Char
  | [] => ([], part, [])
  | c :: rest =>
    match part.next? c with
    | some part =>
      let (cs, last, after) := numberText part rest
      (c :: cs, last, after)
    | none => ([], part, c :: rest)

def digitValue (radix : Nat) (cs : List Char) : Option Nat :=
  if cs.isEmpty then none
  else cs.foldlM (fun n c => (hexValue? c).bind fun d => if d < radix then some (n * radix + d) else none) 0

def greatestWhole : Nat := 0xFFFFFFFFFFFFFFFFFFFFFFFFFFFFFFFF

def wholeToken (radix : Nat) (cs : List Char) : Token :=
  match digitValue radix (cs.filter (· != '_')) with
  | some n => if cs.getLast? = some '_' ∨ greatestWhole < n then .fault .syntaxError else .int n
  | none => .fault .syntaxError

/-- Reads a decimal fraction, with a power of ten behind it or without. -/
def realToken (cs : List Char) : Token :=
  let number? : Option Binary64 := do
    let plain := cs.filter (· != '_')
    let mantissa := plain.takeWhile fun c => c != 'e' && c != 'E'
    let whole := mantissa.takeWhile (· != '.')
    let fraction := (mantissa.dropWhile (· != '.')).drop 1
    let digits ← digitValue 10 (whole ++ fraction)
    let power : Int ← match plain.drop mantissa.length with
      | [] => some 0
      | _ :: '-' :: ds => (digitValue 10 ds).map fun n => -(n : Int)
      | _ :: '+' :: ds => (digitValue 10 ds).map fun n => (n : Int)
      | _ :: ds => (digitValue 10 ds).map fun n => (n : Int)
    return Binary64.ofDecimal false digits (power - fraction.length)
  match number? with
  | some x => if cs.getLast? = some '_' then .fault .syntaxError else .real x
  | none => .fault .syntaxError

/-- The radix that the first two characters of a number announce. -/
def radix? : List Char → Option Nat
  | '0' :: c :: _ =>
    match c.toLower with
    | 'x' => some 16
    | 'o' => some 8
    | 'b' => some 2
    | _ => none
  | _ => none

def number (cs : List Char) : Token × List Char :=
  match radix? cs with
  | some radix =>
    let digits := (cs.drop 2).takeWhile fun c =>
      c.isDigit || c == '_' || (radix == 16 && (hexValue? c).isSome)
    (wholeToken radix digits, cs.drop (2 + digits.length))
  | none =>
    match numberText .whole cs with
    | (digits, .whole, rest) => (wholeToken 10 digits, rest)
    | (digits, _, rest) => (realToken digits, rest)

def wideSymbols : List String := ["//", "**", "==", "!=", ">=", "<="]

def narrowSymbols : List Char :=
  ['+', '-', '*', '/', '%', '.', ',', ':', '~', '|', '=', '>', '<', '(', ')', '[', ']', '\x7b', '\x7d']

/-- The token at the beginning of a text that is neither empty nor begins with white space. -/
def inner (cs : List Char) : Token × List Char :=
  match cs with
  | [] => (.fault .syntaxError, [])
  | c :: rest =>
    if wideSymbols.contains (String.ofList (cs.take 2)) then
      (.symbol (String.ofList (cs.take 2)), cs.drop 2)
    else if narrowSymbols.contains c then (.symbol (String.singleton c), rest)
    else if c = '"' ∨ c = '\'' then
      match quotation? c rest with
      | some (chars, after) =>
        match unescape? chars.length chars with
        | some chars => (.str (String.ofList chars), after)
        | none => (.fault .badEscape, [])
      | none => (.fault .syntaxError, [])
    else if c.isDigit then number cs
    else if isNameStart c then (.name (String.ofList (cs.takeWhile isNamePart)), cs.dropWhile isNamePart)
    else (.fault .syntaxError, [])

/-- How a token changes the number of open brackets. -/
def balanceStep : Token → Int
  | .symbol s =>
    if s = "(" ∨ s = "[" ∨ s = "\x7b" then 1
    else if s = ")" ∨ s = "]" ∨ s = "\x7d" then -1
    else 0
  | _ => 0

/-- The end of a part of a template outside of brackets: the token for it, and what follows. -/
def ending? (m : Marker) (cs : List Char) : Option (Token × List Char) :=
  match m with
  | .lineBlock => if cs.head?.all isBreak then some (.blockEnd, skipBreak cs) else none
  | .variable =>
    match Text.after? ('-' :: closing) cs with
    | some rest => some (.variableEnd, Text.skipBlanks rest)
    | none => (Text.after? closing cs).map fun rest => (.variableEnd, rest)
  | _ =>
    let (spacing, rest) := spacingAt cs
    (Text.after? closing rest).map fun rest => (.blockEnd, afterClosing spacing rest)

/-- White space inside of a part; a statement on a line of its own ends with the line. -/
def skipInside (m : Marker) (cs : List Char) : List Char :=
  if m = .lineBlock then cs.dropWhile fun c => Text.isBlank c && !isBreak c
  else cs.dropWhile isSpace

/-- The token for running text, unless there is none. -/
def ofText (cs : List Char) : List Token := if cs.isEmpty then [] else [.text (String.ofList cs)]

mutual

/-- The tokens of a template from running text on. `fuel` bounds the number of parts and tokens. -/
def scanText (fuel : Nat) (cs : List Char) : List Token :=
  match fuel with
  | 0 => []
  | fuel + 1 =>
    match nextMarker true cs with
    | (before, none) => ofText before
    | (before, some (m, rest)) =>
      let (spacing, rest) := spacingAt rest
      ofText (beforeOpening m spacing before) ++
        match m with
        | .variable => .variableStart :: scanInside fuel .variable 0 rest
        | .lineBlock => .blockStart :: scanInside fuel .lineBlock 0 rest
        | .lineComment => scanText fuel (skipBreak (rest.dropWhile fun c => !isBreak c))
        | .comment =>
          match Text.cutAt? closing rest with
          | some (comment, rest) => scanText fuel (afterClosing (.ofChar comment.getLast?) rest)
          | none => [.fault .syntaxError]
        | .block =>
          match soleWord? "raw" rest with
          | none => .blockStart :: scanInside fuel .block 0 rest
          | some (start, rest) =>
            match verbatim? rest with
            | some (chars, ending, after, rest) =>
              .text (String.ofList (verbatimText start ending chars)) ::
                scanText fuel (afterClosing after rest)
            | none => [.fault .syntaxError]

/-- The tokens of a template from the inside of a part on, with the number of open brackets. -/
def scanInside (fuel : Nat) (m : Marker) (balance : Int) (cs : List Char) : List Token :=
  match fuel with
  | 0 => []
  | fuel + 1 =>
    let cs := skipInside m cs
    match if balance = 0 then ending? m cs else none with
    | some (token, rest) => token :: scanText fuel rest
    | none =>
      match cs with
      | [] => []
      | _ =>
        match inner cs with
        | (.fault f, _) => [.fault f]
        | (token, rest) => token :: scanInside fuel m (balance + balanceStep token) rest

end

/-- The tokens of a template. Each one takes at least one character. -/
def scan (s : String) : List Token :=
  let cs := s.toList
  scanText (2 * cs.length + 2) cs

end Token

end Bitpress.Template
