import Bitpress.Text.Utf8
import Bitpress.Yaml.Text

/-!
The tokens of YAML text. Indentation becomes tokens that open and close block
collections. A colon can make a key of what stands before it on its line: where
something may turn out to be a key, its place among the tokens is remembered, and
the tokens that open the key are put there when the colon comes.
-/

namespace Bitpress.Yaml

inductive Token
  | documentStart
  | documentEnd
  | version (major minor : Nat)
  | tagDirective (handle start : String)
  | blockListStart
  | blockMapStart
  | blockEnd
  | flowListStart
  | flowListEnd
  | flowMapStart
  | flowMapEnd
  | blockEntry
  | flowEntry
  | key
  | value
  | reference (name : String)
  | anchor (name : String)
  | tag (handle suffix : String)
  | scalar (text : String) (plain : Bool)
deriving DecidableEq, Inhabited

/-- A token, and whether it stands at the very beginning of the text. -/
structure Placed where
  token : Token
  first : Bool
deriving Inhabited

/-- A place where a key may have begun. -/
structure KeyPlace where
  required : Bool
  /-- How many tokens stood before it. -/
  tokens : Nat
  index : Nat
  line : Nat
  column : Nat

/-- What is known in the middle of a text. -/
structure Lexer where
  cursor : Cursor
  tokens : Array Placed := #[]
  indent : Int := -1
  indents : List Int := []
  flowLevel : Nat := 0
  keyAllowed : Bool := true
  /-- One place for each open flow collection and one for the block around them. -/
  keys : List (Option KeyPlace) := [none]

namespace Lexer

def inFlow (l : Lexer) : Bool := l.flowLevel != 0

def isFirst (c : Cursor) : Bool := c.line == 0 && c.column == 0

def add (l : Lexer) (t : Token) (at_ : Cursor) : Lexer :=
  { l with tokens := l.tokens.push ⟨t, isFirst at_⟩ }

/-- Puts a token in front of the one that is the `n`-th. -/
def insert (l : Lexer) (n : Nat) (t : Token) (first : Bool) : Lexer :=
  { l with tokens := (l.tokens.toList.take n ++ ⟨t, first⟩ :: l.tokens.toList.drop n).toArray }

/-! ### Keys -/

/-- A key stands on one line and is not longer than 1024 characters. -/
def isStale (c : Cursor) (k : KeyPlace) : Bool := k.line < c.line || k.index + 1024 < c.index

/-- Forgets the places that are too far away; one at which a key was required is an error. -/
def dropStale? (l : Lexer) : Option Lexer :=
  let stale (k : Option KeyPlace) : Bool := k.any (isStale l.cursor)
  if l.keys.any fun k => stale k && k.any KeyPlace.required then none
  else some { l with keys := l.keys.map fun k => if stale k then none else k }

/-- Forgets the place of the innermost collection. -/
def removeKey? (l : Lexer) : Option Lexer :=
  match l.keys with
  | some k :: more => if k.required then none else some { l with keys := none :: more }
  | _ => some l

/-- Remembers that a key may begin here. -/
def saveKey? (l : Lexer) : Option Lexer :=
  if l.keyAllowed then do
    let l ← l.removeKey?
    let c := l.cursor
    let k : KeyPlace :=
      ⟨!l.inFlow && l.indent == (c.column : Int), l.tokens.size, c.index, c.line, c.column⟩
    return { l with keys := some k :: l.keys.drop 1 }
  else some l

/-! ### Indentation -/

/-- Opens a block collection if the column is deeper than the one around it. -/
def openBlock (l : Lexer) (column : Nat) (place : Option Nat) (t : Token) (first : Bool) : Lexer :=
  if l.inFlow || (column : Int) ≤ l.indent then l
  else
    let l := { l with indents := l.indent :: l.indents, indent := column }
    l.insert (place.getD l.tokens.size) t first

/-- Closes the block collections that are deeper than a column. -/
def closeBlocks (l : Lexer) (column : Int) : (fuel : Nat) → Lexer
  | 0 => l
  | fuel + 1 =>
    if !l.inFlow && column < l.indent then
      closeBlocks
        { l.add .blockEnd l.cursor with indent := l.indents.headD (-1), indents := l.indents.drop 1 }
        column fuel
    else l

def unroll (l : Lexer) (column : Int) : Lexer := l.closeBlocks column (l.indents.length + 1)

/-! ### Single tokens -/

/-- Passes white space, comments and line breaks. Tabs count as white space where no key can begin. -/
def passSpace (l : Lexer) : (fuel : Nat) → Lexer
  | 0 => l
  | fuel + 1 =>
    let c := l.cursor
    let c := if c.index == 0 && c.sees '\ufeff' then { c with rest := c.rest.drop 1, index := 1 } else c
    let tabs := l.inFlow || !l.keyAllowed
    let (_, c) := c.takeWhile fun ch => ch == ' ' || (tabs && ch == '\t')
    let (_, c) := if c.sees '#' then c.takeWhile fun ch => !isBreak ch else ([], c)
    if c.seesBreak then
      passSpace { l with cursor := c.skipBreak, keyAllowed := l.keyAllowed || !l.inFlow } fuel
    else { l with cursor := c }

def documentMark? (l : Lexer) (t : Token) : Option Lexer := do
  let l ← (l.unroll (-1)).removeKey?
  return { l.add t l.cursor with keyAllowed := false, cursor := l.cursor.skip 3 }

def flowStart? (l : Lexer) (t : Token) : Option Lexer := do
  let l ← l.saveKey?
  return { l.add t l.cursor with
    keys := none :: l.keys, flowLevel := l.flowLevel + 1, keyAllowed := true, cursor := l.cursor.skip 1 }

def flowEnd? (l : Lexer) (t : Token) : Option Lexer := do
  let l ← l.removeKey?
  let l := if l.inFlow then { l with keys := l.keys.drop 1, flowLevel := l.flowLevel - 1 } else l
  return { l.add t l.cursor with keyAllowed := false, cursor := l.cursor.skip 1 }

def flowEntry? (l : Lexer) : Option Lexer := do
  let l ← l.removeKey?
  return { l.add .flowEntry l.cursor with keyAllowed := true, cursor := l.cursor.skip 1 }

def blockEntry? (l : Lexer) : Option Lexer := do
  if !l.inFlow && !l.keyAllowed then none
  else
    let l := l.openBlock l.cursor.column none .blockListStart (isFirst l.cursor)
    let l ← l.removeKey?
    return { l.add .blockEntry l.cursor with keyAllowed := true, cursor := l.cursor.skip 1 }

def key? (l : Lexer) : Option Lexer := do
  if !l.inFlow && !l.keyAllowed then none
  else
    let l := l.openBlock l.cursor.column none .blockMapStart (isFirst l.cursor)
    let l ← l.removeKey?
    return { l.add .key l.cursor with keyAllowed := !l.inFlow, cursor := l.cursor.skip 1 }

def value? (l : Lexer) : Option Lexer :=
  let c := l.cursor
  match l.keys with
  | some k :: more =>
    let first := k.line == 0 && k.column == 0
    let l := l.insert k.tokens .key first
    let l := l.openBlock k.column (some k.tokens) .blockMapStart first
    some { l.add .value c with keys := none :: more, keyAllowed := false, cursor := c.skip 1 }
  | _ =>
    if !l.inFlow && !l.keyAllowed then none
    else
      let l := l.openBlock c.column none .blockMapStart (isFirst c)
      some { l.add .value c with keyAllowed := !l.inFlow, cursor := c.skip 1 }

/-- Reads the name of an anchor or alias. -/
def anchor? (l : Lexer) (make : String → Token) : Option Lexer := do
  let l ← l.saveKey?
  let (name, c) := (l.cursor.skip 1).takeWhile isNameChar
  let ended := c.blankOrEnd || c.peek?.any fun ch => "?:,]\x7d%@".toList.contains ch || ch == '\u0060'
  if name.isEmpty || !ended then none
  else return { l.add (make (String.ofList name)) l.cursor with keyAllowed := false, cursor := c }

/-! ### Tags -/

def isUriChar (inAngles : Bool) (c : Char) : Bool :=
  isNameChar c || ";/?:@&=+$.%!~*'()".toList.contains c || (inAngles && (c == ',' || c == '[' || c == ']'))

/-- Reads the characters of a tag; a percent sign stands before the code of a byte. -/
def uri? (inAngles : Bool) (acc : ByteArray) (c : Cursor) : (fuel : Nat) → Option (String × Cursor)
  | 0 => none
  | fuel + 1 =>
    match c.peek? with
    | some '%' => do
      let (ch, c) ← coded? 2 (c.skip 1)
      uri? inAngles (acc.push (UInt8.ofNat ch.toNat)) c fuel
    | some ch =>
      if isUriChar inAngles ch then uri? inAngles (acc ++ (String.singleton ch).toUTF8) (c.skip 1) fuel
      else (String.fromUTF8? acc).map (·, c)
    | none => (String.fromUTF8? acc).map (·, c)

/-- Reads a tag after its exclamation mark. -/
def tagParts? (c : Cursor) : Option (String × String × Cursor) := do
  if c.sees '<' then
    let (suffix, c) ← uri? true .empty (c.skip 1) (c.rest.length + 1)
    if suffix = "" ∨ !c.sees '>' then none else return ("", suffix, c.skip 1)
  else
    let (name, after) := c.takeWhile isNameChar
    if after.sees '!' then
      let (suffix, c) ← uri? false .empty (after.skip 1) (c.rest.length + 1)
      if suffix = "" then none else return ("!" ++ String.ofList name ++ "!", suffix, c)
    else
      let (suffix, c) ← uri? false (String.ofList name).toUTF8 after (c.rest.length + 1)
      return if suffix = "" then ("", "!", c) else ("!", suffix, c)

def tag? (l : Lexer) : Option Lexer := do
  let l ← l.saveKey?
  let (handle, suffix, c) ← tagParts? (l.cursor.skip 1)
  if c.blankOrEnd || (l.inFlow && c.sees ',') then
    return { l.add (.tag handle suffix) l.cursor with keyAllowed := false, cursor := c }
  else none

/-! ### Directives -/

def endsLine? (c : Cursor) : Option Cursor :=
  let (_, c) := c.takeWhile isSpaceOrTab
  let (_, c) := if c.sees '#' then c.takeWhile fun ch => !isBreak ch else ([], c)
  if c.breakOrEnd then some c.skipBreak else none

def versionNumber? (c : Cursor) : Option (Nat × Cursor) :=
  let (ds, c) := c.takeWhile Char.isDigit
  if ds.isEmpty || 9 < ds.length then none
  else some (ds.foldl (fun n d => n * 10 + (d.toNat - 48)) 0, c)

def directive? (l : Lexer) : Option Lexer := do
  let l ← (l.unroll (-1)).removeKey?
  let l := { l with keyAllowed := false }
  let (name, c) := (l.cursor.skip 1).takeWhile isNameChar
  if !c.blankOrEnd then none
  else
    let (_, c) := c.takeWhile isSpaceOrTab
    match String.ofList name with
    | "YAML" => do
      let (major, c) ← versionNumber? c
      if !c.sees '.' then none
      else
        let (minor, c) ← versionNumber? (c.skip 1)
        let after ← endsLine? c
        return { l.add (.version major minor) l.cursor with cursor := after }
    | "TAG" => do
      if !c.sees '!' then none
      else
        let (name, c) := (c.skip 1).takeWhile isNameChar
        let (handle, c) ← if c.sees '!' then some ("!" ++ String.ofList name ++ "!", c.skip 1)
          else if name.isEmpty then some ("!", c) else none
        if !c.seesBlank then none
        else
          let (_, c) := c.takeWhile isSpaceOrTab
          let (start, c) ← uri? true .empty c (c.rest.length + 1)
          if start = "" ∨ !c.blankOrEnd then none
          else
            let after ← endsLine? c
            return { l.add (.tagDirective handle start) l.cursor with cursor := after }
    | _ => none

/-! ### Scalars -/

def addText (l : Lexer) (t : ScalarText) (plain : Bool) (keyAllowed : Bool) : Lexer :=
  { l.add (.scalar (String.ofList t.text) plain) l.cursor with keyAllowed := keyAllowed, cursor := t.after }

def blockScalar? (l : Lexer) (literal : Bool) : Option Lexer := do
  let l ← l.removeKey?
  return l.addText (← block? literal l.indent (l.cursor.skip 1)) false true

def quotedScalar? (l : Lexer) (quote : Char) : Option Lexer := do
  let l ← l.saveKey?
  return l.addText (← quoted? quote [] (l.cursor.skip 1) (l.cursor.rest.length + 1)) false false

def plainScalar? (l : Lexer) : Option Lexer := do
  let l ← l.saveKey?
  let t ← plain? l.inFlow (l.indent + 1).toNat [] {} l.cursor (l.cursor.rest.length + 1)
  return l.addText t true t.brokeLine

def startsPlain (l : Lexer) : Bool :=
  let c := l.cursor
  match c.peek? with
  | none => false
  | some ch =>
    (!c.blankOrEnd && !("-?:,[]\x7b\x7d#&*!|>'\"%@".toList.contains ch) && ch != '\u0060') ||
      (ch == '-' && !(c.peekAt? 1).any isSpaceOrTab) ||
      (!l.inFlow && (ch == '?' || ch == ':') && !c.blankOrEndAt 1)

/-- Reads the token at the cursor, which stands neither on white space nor at the end. -/
def token? (l : Lexer) : Option Lexer :=
  let c := l.cursor
  if c.column == 0 && c.sees '%' then l.directive?
  else if c.atDocumentMark '-' then l.documentMark? .documentStart
  else if c.atDocumentMark '.' then l.documentMark? .documentEnd
  else
    match c.peek? with
    | some '[' => l.flowStart? .flowListStart
    | some '\x7b' => l.flowStart? .flowMapStart
    | some ']' => l.flowEnd? .flowListEnd
    | some '\x7d' => l.flowEnd? .flowMapEnd
    | some ',' => l.flowEntry?
    | some '*' => l.anchor? .reference
    | some '&' => l.anchor? .anchor
    | some '!' => l.tag?
    | some '\'' => l.quotedScalar? '\''
    | some '"' => l.quotedScalar? '"'
    | some ch =>
      if ch == '-' && c.blankOrEndAt 1 then l.blockEntry?
      else if ch == '?' && (l.inFlow || c.blankOrEndAt 1) then l.key?
      else if ch == ':' && (l.inFlow || c.blankOrEndAt 1) then l.value?
      else if ch == '|' && !l.inFlow then l.blockScalar? true
      else if ch == '>' && !l.inFlow then l.blockScalar? false
      else if l.startsPlain then l.plainScalar?
      else none
    | none => none

/-- Reads all tokens; each takes up at least one character, which `fuel` counts. -/
def run? (l : Lexer) : (fuel : Nat) → Option Lexer
  | 0 => none
  | fuel + 1 => do
    let l := l.passSpace (l.cursor.rest.length + 1)
    let l ← l.dropStale?
    let l := l.unroll l.cursor.column
    if l.cursor.atEnd then
      let c := if l.cursor.column = 0 then l.cursor else { l.cursor with line := l.cursor.line + 1, column := 0 }
      let l ← (({ l with cursor := c }).unroll (-1)).removeKey?
      return l
    else run? (← l.token?) fuel

end Lexer

/-- The tokens of a text; none when it is malformed. -/
def tokens? (text : String) : Option (List Placed) :=
  let cs := Text.chars text
  if cs.all isAllowed then
    (Lexer.run? { cursor := { rest := cs } } (cs.length + 2)).map fun l => l.tokens.toList
  else none

end Bitpress.Yaml
