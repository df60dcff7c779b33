import Bitpress.Text.Cut

/-!
The tokens of a shell script: words, operators, and the texts of here-documents.
A word is a list of pieces, some of which stand for a text that is known only when
the word is expanded. A piece remembers whether it was quoted, because only what
was not quoted is split into fields and matched against file names.
-/

namespace Bitpress.Shell

inductive Piece
  | text (s : List Char) (quoted : Bool)
  /-- A parameter with what is done to it, as it stands between braces. -/
  | parameter (source : List Char) (quoted : Bool)
  /-- The output of a script. -/
  | output (source : List Char) (quoted : Bool)
  | arithmetic (source : List Char) (quoted : Bool)
deriving DecidableEq, Inhabited

abbrev Word := List Piece

inductive Token
  | word (w : Word)
  | operator (s : String)
  /-- A number right before a redirection. -/
  | descriptor (n : Nat)
  | hereText (w : Word)
deriving DecidableEq, Inhabited

namespace Word

/-- Adds plain text to a reversed word. -/
def push (rev : Word) (cs : List Char) (quoted : Bool) : Word :=
  match rev with
  | .text s q :: rest => if q = quoted then .text (s ++ cs) q :: rest else .text cs quoted :: rev
  | _ => .text cs quoted :: rev

/-- The text of a word without quotes or expansions, if it is one. -/
def bare? : Word → Option String
  | [.text s false] => some (String.ofList s)
  | _ => none

/-- The text of a word whose quotes do not matter. -/
def plain (w : Word) : List Char :=
  w.flatMap fun
    | .text s _ => s
    | _ => []

def hasQuotes (w : Word) : Bool := w.any fun piece => piece matches .text _ true

end Word

namespace Token

/-- The text up to the character `close`, which stands outside of all that is nested in the text,
and what follows it. -/
def enclosed? (close : Char) (cs : List Char) : (fuel : Nat) → Option (List Char × List Char)
  | 0 => none
  | fuel + 1 =>
    let through (opening : List Char) (end_ : Char) (rest : List Char) : Option (List Char × List Char) := do
      let (inner, rest) ← enclosed? end_ rest fuel
      let (outer, rest) ← enclosed? close rest fuel
      some (opening ++ inner ++ end_ :: outer, rest)
    match cs with
    | [] => none
    | '\\' :: c :: rest =>
      if close = '\'' then
        if c = close then some (['\\'], rest)
        else (enclosed? close (c :: rest) fuel).map fun (s, rest) => ('\\' :: s, rest)
      else (enclosed? close rest fuel).map fun (s, rest) => ('\\' :: c :: s, rest)
    | c :: rest =>
      if c = close then some ([], rest)
      else if close = '\'' ∨ close = '\u0060' then (enclosed? close rest fuel).map fun (s, rest) => (c :: s, rest)
      else
        match c, rest with
        | '$', '(' :: rest => through ['$', '('] ')' rest
        | '$', '\x7b' :: rest => through ['$', '\x7b'] '\x7d' rest
        | '\u0060', rest => through ['\u0060'] '\u0060' rest
        | '\'', rest =>
          if close = '"' then (enclosed? close rest fuel).map fun (s, rest) => ('\'' :: s, rest)
          else through ['\''] '\'' rest
        | '"', rest => through ['"'] '"' rest
        | '(', rest =>
          if close = ')' then through ['('] ')' rest
          else (enclosed? close rest fuel).map fun (s, rest) => ('(' :: s, rest)
        | c, rest => (enclosed? close rest fuel).map fun (s, rest) => (c :: s, rest)

def isNameStart (c : Char) : Bool := c.isAlpha || c == '_'

def isNameChar (c : Char) : Bool := c.isAlphanum || c == '_'

/-- Parameters whose name is a sign. -/
def isSign (c : Char) : Bool := "@*#?$!-".toList.contains c || c.isDigit

/-- The piece after a dollar sign; a sign that introduces nothing stands for itself. -/
def dollar? (quoted : Bool) (cs : List Char) : Option (Piece × List Char) :=
  match cs with
  | '(' :: '(' :: rest =>
    match enclosed? ')' rest rest.length with
    | some (source, ')' :: rest) => some (.arithmetic source quoted, rest)
    | _ => (enclosed? ')' ('(' :: rest) (rest.length + 1)).map fun (source, rest) => (.output source quoted, rest)
  | '(' :: rest => (enclosed? ')' rest rest.length).map fun (source, rest) => (.output source quoted, rest)
  | '\x7b' :: rest =>
    (enclosed? '\x7d' rest rest.length).map fun (source, rest) => (.parameter source quoted, rest)
  | c :: rest =>
    if isNameStart c then some (.parameter (cs.takeWhile isNameChar) quoted, cs.dropWhile isNameChar)
    else if isSign c then some (.parameter [c] quoted, rest)
    else some (.text ['$'] quoted, cs)
  | [] => some (.text ['$'] quoted, [])

/-- A script between backquotes, without the backslashes that only protect it there. -/
def unprotected : List Char → List Char
  | '\\' :: c :: rest =>
    if "$\u0060\\".toList.contains c then c :: unprotected rest else '\\' :: c :: unprotected rest
  | c :: rest => c :: unprotected rest
  | [] => []

def backquoted? (quoted : Bool) (cs : List Char) : Option (Piece × List Char) :=
  (enclosed? '\u0060' cs cs.length).map fun (source, rest) => (.output (unprotected source) quoted, rest)

/-- The pieces of a text between double quotes, reversed. -/
def quotedPieces? (rev : Word) (cs : List Char) : (fuel : Nat) → Option Word
  | 0 => none
  | fuel + 1 =>
    match cs with
    | [] => some rev
    | '\\' :: c :: rest =>
      if c = '\n' then quotedPieces? rev rest fuel
      else if "$\u0060\"\\".toList.contains c then quotedPieces? (Word.push rev [c] true) rest fuel
      else quotedPieces? (Word.push rev ['\\', c] true) rest fuel
    | '$' :: rest => do
      let (piece, rest) ← dollar? true rest
      quotedPieces? (piece :: rev) rest fuel
    | '\u0060' :: rest => do
      let (piece, rest) ← backquoted? true rest
      quotedPieces? (piece :: rev) rest fuel
    | c :: rest => quotedPieces? (Word.push rev [c] true) rest fuel

def endsWord (c : Char) : Bool := " \t\n;&|()<>".toList.contains c

/-- Reads a word, whose pieces so far are reversed. -/
def word? (rev : Word) (cs : List Char) : (fuel : Nat) → Option (Word × List Char)
  | 0 => none
  | fuel + 1 =>
    match cs with
    | [] => some (rev.reverse, [])
    | '\\' :: c :: rest =>
      if c = '\n' then word? rev rest fuel else word? (Word.push rev [c] true) rest fuel
    | '\'' :: rest => do
      let (s, rest) ← enclosed? '\'' rest rest.length
      word? (Word.push rev s true) rest fuel
    | '"' :: rest => do
      let (s, rest) ← enclosed? '"' rest rest.length
      let rev ← quotedPieces? (Word.push rev [] true) s (s.length + 1)
      word? rev rest fuel
    | '$' :: rest => do
      let (piece, rest) ← dollar? false rest
      word? (piece :: rev) rest fuel
    | '\u0060' :: rest => do
      let (piece, rest) ← backquoted? false rest
      word? (piece :: rev) rest fuel
    | c :: rest =>
      if endsWord c then some (rev.reverse, c :: rest) else word? (Word.push rev [c] false) rest fuel

def operators : List String := ["&&", "||", ";;", "<<", ">>", ">&", "<&", ">|", ";", "&", "|", "(", ")", "<", ">", "\n"]

def operatorAt? (cs : List Char) : Option (String × List Char) :=
  operators.findSome? fun s => (Text.after? s.toList cs).map fun rest => (s, rest)

/-- The lines before the one that ends a here-document, and what follows that line. -/
def hereLines (strip : Bool) (ending : List Char) : (lines : List (List Char)) → List Char × List (List Char)
  | [] => ([], [])
  | line :: rest =>
    let line := if strip then line.dropWhile (· == '\t') else line
    if line = ending then ([], rest)
    else
      let (body, rest) := hereLines strip ending rest
      (line ++ '\n' :: body, rest)

/-- Reads the delimiter of a here-document and takes its text out of the lines that follow. -/
def here? (cs : List Char) : Option (Token × List Char) := do
  let strip := cs.head? == some '-'
  let start := (if strip then cs.drop 1 else cs).dropWhile (· == ' ')
  let (delimiter, rest) ← word? [] start (start.length + 1)
  let line := rest.takeWhile (· != '\n')
  let following := (rest.dropWhile (· != '\n')).drop 1
  let (body, others) := hereLines strip delimiter.plain (Text.splitChars '\n' following)
  let content ←
    if delimiter.hasQuotes then some [.text body true]
    else (quotedPieces? [] body (body.length + 1)).map List.reverse
  some (.hereText content, line ++ '\n' :: List.intercalate ['\n'] others)

/-- The tokens of a script. -/
def list? (cs : List Char) : (fuel : Nat) → Option (List Token)
  | 0 => none
  | fuel + 1 =>
    match cs with
    | [] => some []
    | ' ' :: rest => list? rest fuel
    | '\t' :: rest => list? rest fuel
    | '\\' :: '\n' :: rest => list? rest fuel
    | '#' :: rest => list? (rest.dropWhile (· != '\n')) fuel
    | c :: rest =>
      match operatorAt? cs with
      | some ("<<", rest) => do
        let (token, rest) ← here? rest
        (list? rest fuel).map fun tokens => .operator "<<" :: token :: tokens
      | some (s, rest) => (list? rest fuel).map (.operator s :: ·)
      | none => do
        let digits := cs.takeWhile Char.isDigit
        let after := cs.dropWhile Char.isDigit
        if digits ≠ [] ∧ (after.head? = some '<' ∨ after.head? = some '>') then
          (list? after fuel).map (.descriptor ((String.ofList digits).toNat?.getD 0) :: ·)
        else
          let (w, rest) ← word? [] (c :: rest) (rest.length + 2)
          (list? rest fuel).map (.word w :: ·)

end Token

def Token.ofScript? (cs : List Char) : Option (List Token) := Token.list? cs (2 * cs.length + 1)

end Bitpress.Shell
