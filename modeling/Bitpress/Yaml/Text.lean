import Bitpress.Yaml.Cursor

/-!
The text of YAML scalars: plain, quoted and block scalars. Line breaks inside a
plain or quoted scalar are folded: a single break becomes a space, and of several
breaks all but the first are kept.
-/

namespace Bitpress.Yaml

/-- White space that is held back until it is known what follows it. -/
structure Gap where
  blanks : List Char := []
  /-- The first line break, if the gap goes over lines. -/
  first : Option (List Char) := none
  /-- The line breaks after the first. -/
  more : List Char := []

namespace Gap

/-- The text that a gap between two words stands for. -/
def folded (g : Gap) : List Char :=
  match g.first with
  | none => g.blanks
  | some ['\n'] => if g.more.isEmpty then [' '] else g.more
  | some first => first ++ g.more

/-- Passes blanks and breaks. With an `indent`, a tab before that column on a later line is refused. -/
def pass? (indent : Option Nat) (g : Gap) (c : Cursor) : (fuel : Nat) → Option (Gap × Cursor)
  | 0 => none
  | fuel + 1 =>
    match c.peek? with
    | some ch =>
      if isSpaceOrTab ch then
        if g.first.isSome && indent.any (c.column < ·) && ch == '\t' then none
        else
          let g := if g.first.isSome then g else { g with blanks := g.blanks ++ [ch] }
          pass? indent g (c.skip 1) fuel
      else if isBreak ch then
        let g := match g.first with
          | none => { g with first := some c.breakText }
          | some _ => { g with more := g.more ++ c.breakText }
        pass? indent g c.skipBreak fuel
      else some (g, c)
    | none => some (g, c)

end Gap

/-- A scalar that was read: its text, whether a line break followed it, and the place after it. -/
structure ScalarText where
  text : List Char
  brokeLine : Bool := false
  after : Cursor

/-! ### Plain scalars -/

def isFlowMark (c : Char) : Bool := c == ',' || c == '[' || c == ']' || c == '\x7b' || c == '\x7d'

/-- Whether a plain scalar ends before the character here. -/
def endsPlain (flow : Bool) (c : Cursor) : Bool :=
  (c.sees ':' && c.blankOrEndAt 1) || (flow && c.peek?.any isFlowMark)

/-- In flow collections a colon does not stand directly before a flow mark. -/
def badColon (flow : Bool) (c : Cursor) : Bool :=
  flow && c.sees ':' && (c.peekAt? 1).any fun ch => ch == '?' || isFlowMark ch

/-- Reads the characters of one word. -/
def plainWord? (flow : Bool) (acc : List Char) (c : Cursor) : (fuel : Nat) → Option (List Char × Cursor)
  | 0 => none
  | fuel + 1 =>
    if c.blankOrEnd then some (acc, c)
    else if badColon flow c then none
    else if endsPlain flow c then some (acc, c)
    else
      match c.peek? with
      | some ch => plainWord? flow (ch :: acc) (c.skip 1) fuel
      | none => some (acc, c)

/-- Reads a plain scalar, whose later lines are at least at column `indent`. The text so far is kept in
reverse. -/
def plain? (flow : Bool) (indent : Nat) (acc : List Char) (gap : Gap) (c : Cursor) :
    (fuel : Nat) → Option ScalarText
  | 0 => none
  | fuel + 1 =>
    let stop : Option ScalarText := some ⟨acc.reverse, gap.first.isSome, c⟩
    if c.atAnyDocumentMark || c.sees '#' then stop
    else
      match plainWord? flow (gap.folded.reverse ++ acc) c (c.rest.length + 1) with
      | none => none
      | some (word, next) =>
        if next.index == c.index then stop
        else if !(next.seesBlank || next.seesBreak) then some ⟨word.reverse, false, next⟩
        else
          match Gap.pass? (some indent) {} next (next.rest.length + 1) with
          | none => none
          | some (gap, next) =>
            if !flow && next.column < indent then some ⟨word.reverse, gap.first.isSome, next⟩
            else plain? flow indent word gap next fuel

/-! ### Quoted scalars -/

def escapes : List (Char × Char) :=
  [('0', '\x00'), ('a', '\x07'), ('b', '\x08'), ('t', '\t'), ('\t', '\t'), ('n', '\n'), ('v', '\x0b'),
   ('f', '\x0c'), ('r', '\r'), ('e', '\x1b'), (' ', ' '), ('"', '"'), ('/', '/'), ('\\', '\\'),
   ('N', '\u0085'), ('_', '\u00a0'), ('L', '\u2028'), ('P', '\u2029')]

def hexDigit? (c : Char) : Option Nat :=
  if '0' ≤ c ∧ c ≤ '9' then some (c.toNat - 48)
  else if 'a' ≤ c ∧ c ≤ 'f' then some (c.toNat - 87)
  else if 'A' ≤ c ∧ c ≤ 'F' then some (c.toNat - 55)
  else none

/-- Reads a character by its code of `n` hexadecimal digits. -/
def coded? (n : Nat) (c : Cursor) : Option (Char × Cursor) := do
  let ds := c.rest.take n
  if ds.length < n then none
  else
    let code ← ds.foldlM (fun acc d => (hexDigit? d).map (acc * 16 + ·)) 0
    if (0xD800 ≤ code ∧ code ≤ 0xDFFF) ∨ 0x10FFFF < code then none
    else some (Char.ofNat code, c.skip n)

/-- Reads an escape after its backslash. -/
def escape? (c : Cursor) : Option (Char × Cursor) :=
  match c.peek? with
  | some 'x' => coded? 2 (c.skip 1)
  | some 'u' => coded? 4 (c.skip 1)
  | some 'U' => coded? 8 (c.skip 1)
  | some ch => (escapes.lookup ch).map (·, c.skip 1)
  | none => none

/-- Reads the characters up to white space or the closing quote; tells whether an escaped line break
ended them. -/
def quotedWord? (quote : Char) (acc : List Char) (c : Cursor) :
    (fuel : Nat) → Option (List Char × Bool × Cursor)
  | 0 => none
  | fuel + 1 =>
    if c.blankOrEnd then some (acc, false, c)
    else if quote == '\'' && c.sees '\'' && c.peekAt? 1 == some '\'' then
      quotedWord? quote ('\'' :: acc) (c.skip 2) fuel
    else if c.sees quote then some (acc, false, c)
    else if quote == '"' && c.sees '\\' then
      if (c.peekAt? 1).any isBreak then some (acc, true, (c.skip 1).skipBreak)
      else
        match escape? (c.skip 1) with
        | some (ch, c) => quotedWord? quote (ch :: acc) c fuel
        | none => none
    else
      match c.peek? with
      | some ch => quotedWord? quote (ch :: acc) (c.skip 1) fuel
      | none => none

/-- Reads a quoted scalar after its opening quote. -/
def quoted? (quote : Char) (acc : List Char) (c : Cursor) : (fuel : Nat) → Option ScalarText
  | 0 => none
  | fuel + 1 =>
    if c.atAnyDocumentMark || c.atEnd then none
    else
      match quotedWord? quote acc c (c.rest.length + 1) with
      | none => none
      | some (acc, escaped, c) =>
        if !escaped && c.sees quote then some ⟨acc.reverse, false, c.skip 1⟩
        else
          match Gap.pass? none { first := if escaped then some [] else none } c (c.rest.length + 1) with
          | some (gap, c) => quoted? quote (gap.folded.reverse ++ acc) c fuel
          | none => none

/-! ### Block scalars -/

/-- What becomes of the line breaks at the end of a block scalar. -/
inductive Chomp
  | strip
  | clip
  | keep
deriving DecidableEq

structure BlockHeader where
  chomp : Chomp := .clip
  increment : Nat := 0

def chompOf? : Char → Option Chomp
  | '+' => some .keep
  | '-' => some .strip
  | _ => none

/-- Reads the indicators after the mark of a block scalar. -/
def blockHeader? (c : Cursor) : Option (BlockHeader × Cursor) :=
  let digit? (c : Cursor) : Option Nat := c.peek?.bind fun ch => if ch.isDigit then some (ch.toNat - 48) else none
  match c.peek?.bind chompOf? with
  | some chomp =>
    let c := c.skip 1
    match digit? c with
    | some 0 => none
    | some n => some (⟨chomp, n⟩, c.skip 1)
    | none => some (⟨chomp, 0⟩, c)
  | none =>
    match digit? c with
    | some 0 => none
    | some n =>
      let c := c.skip 1
      match c.peek?.bind chompOf? with
      | some chomp => some (⟨chomp, n⟩, c.skip 1)
      | none => some (⟨.clip, n⟩, c)
    | none => some ({}, c)

/-- Passes empty lines and the indentation of the next line; gives the breaks passed and the deepest
column reached. An `indent` of zero is not known yet. -/
def blockBreaks? (indent deepest : Nat) (breaks : List Char) (c : Cursor) :
    (fuel : Nat) → Option (List Char × Nat × Cursor)
  | 0 => none
  | fuel + 1 =>
    let before := c.rest.takeWhile (· == ' ')
    let n := if indent = 0 then before.length else Nat.min before.length (indent - c.column)
    let c := c.skip n
    let deepest := Nat.max deepest c.column
    if (indent = 0 ∨ c.column < indent) ∧ c.sees '\t' then none
    else if c.seesBreak then blockBreaks? indent deepest (breaks ++ c.breakText) c.skipBreak fuel
    else some (breaks, deepest, c)

/-- What has been read of a block scalar: its text in reverse, the break that ended the last line, the
breaks after it, and whether the last line began with white space. -/
structure BlockProgress where
  text : List Char := []
  lastBreak : List Char := []
  breaks : List Char := []
  ledByBlank : Bool := false

/-- Reads the lines of a block scalar at column `indent`. -/
def blockLines? (literal : Bool) (indent : Nat) (p : BlockProgress) (c : Cursor) :
    (fuel : Nat) → Option (BlockProgress × Cursor)
  | 0 => none
  | fuel + 1 =>
    if c.column = indent ∧ !c.atEnd then
      let folds := !literal && p.lastBreak == ['\n'] && !p.ledByBlank && !c.seesBlank
      let joint :=
        if folds then if p.breaks.isEmpty then [' '] else p.breaks else p.lastBreak ++ p.breaks
      let (line, next) := c.takeWhile fun ch => !isBreak ch
      match blockBreaks? indent 0 [] next.skipBreak (next.rest.length + 1) with
      | none => none
      | some (breaks, _, after) =>
        blockLines? literal indent
          ⟨line.reverse ++ joint.reverse ++ p.text, next.breakText, breaks, c.seesBlank⟩ after fuel
    else some (p, c)

/-- Reads a block scalar after its mark; `parent` is the column of the collection that it is in. -/
def block? (literal : Bool) (parent : Int) (c : Cursor) : Option ScalarText := do
  let (header, c) ← blockHeader? c
  let (_, c) := c.takeWhile isSpaceOrTab
  let (_, c) := if c.sees '#' then c.takeWhile fun ch => !isBreak ch else ([], c)
  if !c.breakOrEnd then none
  else
    let c := c.skipBreak
    let given := if header.increment = 0 then 0 else (Int.toNat (if 0 ≤ parent then parent else 0)) + header.increment
    let (breaks, deepest, c) ← blockBreaks? given 0 [] c (c.rest.length + 1)
    let indent := if given = 0 then Nat.max (Nat.max deepest (parent + 1).toNat) 1 else given
    let (p, c) ← blockLines? literal indent { breaks := breaks } c (c.rest.length + 1)
    let tail := match header.chomp with
      | .strip => []
      | .clip => p.lastBreak
      | .keep => p.lastBreak ++ p.breaks
    some ⟨p.text.reverse ++ tail, true, c⟩

end Bitpress.Yaml
