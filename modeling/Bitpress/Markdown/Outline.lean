import Bitpress.Markdown.Entity

/-!
The code blocks of Markdown text. Lines are read one by one. The containers that
are open, quotes and list items, take their marks and indentation from the front
of a line; what remains goes on with the block that is open inside them or begins
a new one. Only the blocks that are fenced and stand in no container are kept.
-/

namespace Bitpress.Markdown

/-- A fence: its mark, how often it is repeated, and the column where it stands. -/
structure Fence where
  mark : Char
  length : Nat
  column : Nat
deriving DecidableEq

/-- A fenced block: the line of its opening fence, what stands behind that fence, and the lines inside. -/
structure CodeBlock where
  line : Nat
  language : Option String
  info : Option String
  lines : List String

/-- A container: a quote, or a list item with the width that its lines are indented by; `bare` while
nothing was written in the item. -/
inductive Container
  | quote
  | item (width : Nat) (bare : Bool)
deriving DecidableEq

/-- When a block of raw markup ends. -/
inductive MarkupEnd
  | atBlank
  | after (words : List String)
deriving DecidableEq

/-- The block that is open inside the containers. -/
inductive Leaf
  | none
  | paragraph
  | fence (f : Fence)
  | markup (ending : MarkupEnd)
deriving DecidableEq

/-! ### Lines -/

def isIndent (c : Char) : Bool := c == ' ' || c == '\t'

/-- The rest of a line; `pending` columns of white space stand before its characters, which begin at
a column. -/
structure Line where
  chars : List Char
  column : Nat := 0
  pending : Nat := 0

namespace Line

/-- Turns the white space at the front into columns. -/
def settle (l : Line) : Line :=
  match l with
  | ⟨' ' :: rest, column, pending⟩ => settle ⟨rest, column + 1, pending + 1⟩
  | ⟨'\t' :: rest, column, pending⟩ =>
    let n := 4 - column % 4
    settle ⟨rest, column + n, pending + n⟩
  | l => l
termination_by l.chars.length

def isBlank (l : Line) : Bool := l.chars.isEmpty

/-- Takes columns of white space away. -/
def dropColumns (l : Line) (n : Nat) : Line := { l with pending := l.pending - n }

/-- Passes characters that are no white space, and settles what follows. -/
def skip (l : Line) (n : Nat) : Line :=
  settle ⟨l.chars.drop n, l.column + n, 0⟩

end Line

/-- More white space than this before a line makes it code. -/
def deepestStart : Nat := 3

/-! ### Beginnings of blocks -/

/-- The run of marks that opens a fence. -/
def fenceOf? (l : Line) : Option (Fence × List Char) :=
  match l.chars with
  | c :: _ =>
    if c == '\u0060' || c == '~' then
      let n := (l.chars.takeWhile (· == c)).length
      let rest := l.chars.drop n
      if n < 3 || (c == '\u0060' && rest.contains '\u0060') then none else some (⟨c, n, l.pending⟩, rest)
    else none
  | [] => none

/-- Whether a line closes a fence. -/
def closes (f : Fence) (l : Line) : Bool :=
  let marks := l.chars.takeWhile (· == f.mark)
  l.pending ≤ deepestStart && f.length ≤ marks.length && (l.chars.drop marks.length).all isIndent

/-- Three or more equal marks with nothing but white space between them. -/
def isRule (l : Line) : Bool :=
  match l.chars with
  | c :: _ =>
    let marks := l.chars.filter fun c => !isIndent c
    (c == '-' || c == '*' || c == '_') && 3 ≤ marks.length && marks.all (· == c)
  | [] => false

/-- A line under a paragraph that makes it a heading. -/
def isUnderline (l : Line) : Bool :=
  match l.chars with
  | c :: _ => (c == '-' || c == '=') && (l.chars.dropWhile (· == c)).all isIndent
  | [] => false

def isHeading (l : Line) : Bool :=
  let marks := l.chars.takeWhile (· == '#')
  1 ≤ marks.length && marks.length ≤ 6 && (l.chars.drop marks.length).head?.all isIndent

/-- The width of the mark of a list item, and whether an item with it can follow a paragraph. -/
def itemMark? (l : Line) : Option (Nat × Bool) :=
  let ended (n : Nat) : Bool := (l.chars.drop n).head?.all isIndent
  let filled (n : Nat) : Bool := !(l.chars.drop n).all isIndent
  match l.chars with
  | c :: _ =>
    if c == '-' || c == '+' || c == '*' then if ended 1 then some (1, filled 1) else none
    else
      let n := (l.chars.takeWhile Char.isDigit).length
      let marked := (l.chars.drop n).head?.any fun c => c == '.' || c == ')'
      if 1 ≤ n && n ≤ 9 && marked && ended (n + 1) then
        some (n + 1, filled (n + 1) && l.chars.take n == ['1'])
      else none
  | [] => none

def rawNames : List String := ["pre", "script", "style", "textarea"]

def blockNames : List String :=
  ["address", "article", "aside", "base", "basefont", "blockquote", "body", "caption", "center", "col",
   "colgroup", "dd", "details", "dialog", "dir", "div", "dl", "dt", "fieldset", "figcaption", "figure",
   "footer", "form", "frame", "frameset", "h1", "h2", "h3", "h4", "h5", "h6", "head", "header", "hr",
   "html", "iframe", "legend", "li", "link", "main", "menu", "menuitem", "nav", "noframes", "ol",
   "optgroup", "option", "p", "param", "search", "section", "summary", "table", "tbody", "td", "tfoot",
   "th", "thead", "title", "tr", "track", "ul"]

/-- Reads the attributes of a tag up to its end, and gives what follows it. -/
def tagEnd? (cs : List Char) : (fuel : Nat) → Option (List Char)
  | 0 => none
  | fuel + 1 =>
    let rest := cs.dropWhile isIndent
    match rest with
    | '>' :: after => some after
    | '/' :: '>' :: after => some after
    | c :: _ =>
      if rest.length < cs.length && (c.isAlpha || c == '_' || c == ':') then
        let after := rest.dropWhile fun c => c.isAlphanum || c == '_' || c == ':' || c == '.' || c == '-'
        match after.dropWhile isIndent with
        | '=' :: value =>
          match value.dropWhile isIndent with
          | '"' :: inner =>
            match inner.dropWhile (· != '"') with
            | _ :: after => tagEnd? after fuel
            | [] => none
          | '\'' :: inner =>
            match inner.dropWhile (· != '\'') with
            | _ :: after => tagEnd? after fuel
            | [] => none
          | plain =>
            let bare (c : Char) : Bool := !(isIndent c || "\"'<>=".toList.contains c || c == '\u0060')
            if (plain.takeWhile bare).isEmpty then none else tagEnd? (plain.dropWhile bare) fuel
        | _ => tagEnd? after fuel
      else none
    | [] => none

/-- Whether a line holds one tag and nothing else. -/
def isLoneTag (cs : List Char) : Bool :=
  let name (cs : List Char) : List Char := cs.takeWhile fun c => c.isAlphanum || c == '-'
  match cs with
  | '<' :: '/' :: rest =>
    (name rest).head?.any Char.isAlpha &&
      match (rest.drop (name rest).length).dropWhile isIndent with
      | '>' :: after => after.all isIndent
      | _ => false
  | '<' :: rest =>
    (name rest).head?.any Char.isAlpha &&
      !rawNames.contains ((String.ofList (name rest)).toLower) &&
      (tagEnd? (rest.drop (name rest).length) (rest.length + 1)).any fun after => after.all isIndent
  | _ => false

/-- How raw markup that begins with a line ends. -/
def markupStart? (interrupts : Bool) (l : Line) : Option MarkupEnd :=
  let named (cs : List Char) : String := (String.ofList (cs.takeWhile Char.isAlphanum)).toLower
  let after (cs : List Char) : List Char := cs.dropWhile Char.isAlphanum
  match l.chars with
  | '<' :: '!' :: '-' :: '-' :: _ => some (.after ["-->"])
  | '<' :: '?' :: _ => some (.after ["?>"])
  | '<' :: '!' :: '[' :: 'C' :: 'D' :: 'A' :: 'T' :: 'A' :: '[' :: _ => some (.after ["]]>"])
  | '<' :: '!' :: c :: _ => if c.isAlpha then some (.after [">"]) else none
  | '<' :: rest =>
    let body := match rest with
      | '/' :: body => body
      | body => body
    let next := (after body).head?
    if rest.head? != some '/' && rawNames.contains (named rest) && next.all (fun c => isIndent c || c == '>') then
      some (.after ["</pre>", "</script>", "</style>", "</textarea>"])
    else if blockNames.contains (named body) &&
        (next.all (fun c => isIndent c || c == '>') || ['/', '>'].isPrefixOf (after body)) then
      some .atBlank
    else if !interrupts && isLoneTag l.chars then some .atBlank
    else none
  | _ => none

/-- Whether raw markup ends with a line. -/
def MarkupEnd.endsWith (e : MarkupEnd) (l : Line) : Bool :=
  match e with
  | .atBlank => l.isBlank
  | .after words => words.any fun w => Text.hasPart w.toList (l.chars.map Char.toLower)

/-! ### Reading line by line -/

structure Outline where
  containers : List Container := []
  leaf : Leaf := .none
  /-- The block whose fence is open, with its lines in reverse. -/
  filling : Option CodeBlock := none
  done : List CodeBlock := []

/-- Takes the marks of open containers from a line, until one does not go on. -/
def goOn : List Container → Line → List Container × Line
  | [], l => ([], l)
  | .quote :: more, l =>
    if l.pending ≤ deepestStart && l.chars.head? == some '>' then
      let (kept, l) := goOn more ((l.skip 1).dropColumns 1)
      (.quote :: kept, l)
    else ([], l)
  | .item width bare :: more, l =>
    if l.isBlank then
      if bare then ([], l)
      else
        let (kept, l) := goOn more l
        (.item width false :: kept, l)
    else if width ≤ l.pending then
      let (kept, l) := goOn more (l.dropColumns width)
      (.item width false :: kept, l)
    else ([], l)

/-- The containers that begin in a line, and the rest of the line. -/
def newContainers (interrupts : Bool) (l : Line) : (fuel : Nat) → List Container × Line
  | 0 => ([], l)
  | fuel + 1 =>
    if deepestStart < l.pending then ([], l)
    else if l.chars.head? == some '>' then
      let (more, l) := newContainers false ((l.skip 1).dropColumns 1) fuel
      (.quote :: more, l)
    else if isRule l then ([], l)
    else
      match itemMark? l with
      | some (width, canInterrupt) =>
        if interrupts && !canInterrupt then ([], l)
        else
          let inner := l.skip width
          if inner.isBlank then ([.item (l.pending + width + 1) true], inner)
          else
            let gap := if inner.pending ≤ 4 then inner.pending else 1
            let (more, rest) := newContainers false (inner.dropColumns gap) fuel
            (.item (l.pending + width + gap) false :: more, rest)
      | none => ([], l)

def wordsOf (info : List Char) : Option String × Option String :=
  let info := info.dropWhile isIndent
  let first := info.takeWhile fun c => !isIndent c
  let rest := (info.drop first.length).dropWhile isIndent
  let text (cs : List Char) : Option String := if cs.isEmpty then none else some (String.ofList (unescaped cs))
  (text first, text rest)

namespace Outline

/-- Closes the block that is open; one with a fence that stands in no container is kept. -/
def close (o : Outline) : Outline :=
  match o.filling with
  | some b => { o with leaf := .none, filling := none, done := { b with lines := b.lines.reverse } :: o.done }
  | none => { o with leaf := .none }

/-- A line inside a fence, without the white space that stands before the fence. -/
def fill (o : Outline) (f : Fence) (raw : String) : Outline :=
  let drop := Nat.min f.column (raw.toList.takeWhile (· == ' ')).length
  { o with filling := o.filling.map fun b => { b with lines := String.ofList (raw.toList.drop drop) :: b.lines } }

/-- Begins the block of a line, or goes on with a paragraph. -/
def start (o : Outline) (number : Nat) (l : Line) : Outline :=
  let paragraph := o.leaf == .paragraph
  if l.isBlank then { o with leaf := .none }
  else if deepestStart < l.pending then if paragraph then o else { o with leaf := .none }
  else
    match fenceOf? l with
    | some (f, info) =>
      let (language, rest) := wordsOf info
      { o with leaf := .fence f, filling := if o.containers.isEmpty then some ⟨number, language, rest, []⟩ else none }
    | none =>
      if isHeading l || (paragraph && isUnderline l) || isRule l then { o with leaf := .none }
      else
        match markupStart? paragraph l with
        | some ending => { o with leaf := if ending.endsWith l then .none else .markup ending }
        | none => { o with leaf := .paragraph }

/-- Reads one line. -/
def step (o : Outline) (number : Nat) (raw : String) : Outline :=
  let line := Line.settle { chars := raw.toList }
  let (kept, rest) := goOn o.containers line
  let allKept := kept.length == o.containers.length
  match allKept, o.leaf with
  | true, .fence f => if closes f rest then o.close else o.fill f raw
  | true, .markup ending =>
    if ending.endsWith rest then { o with containers := kept, leaf := .none } else { o with containers := kept }
  | _, _ =>
    let interrupts := allKept && o.leaf == .paragraph
    let (opened, rest) := newContainers interrupts rest (raw.length + 1)
    if opened.isEmpty && allKept then { o with containers := kept }.start number rest
    else
      let fresh : Outline := { o.close with containers := kept ++ opened }
      if !opened.isEmpty then fresh.start number rest
      else
        let next := fresh.start number rest
        if o.leaf == .paragraph && (next.leaf == .paragraph || deepestStart < rest.pending && !rest.isBlank) then o
        else next

end Outline

/-- The fenced blocks of a text that stand in no container. -/
def codeBlocks (lines : List String) : List CodeBlock :=
  (lines.zipIdx.foldl (fun o e => o.step e.2 e.1) ({} : Outline)).close.done.reverse

end Bitpress.Markdown
