import Bitpress.Table
import Bitpress.Yaml.Token

/-!
The nodes of YAML text: scalars, lists and maps as their tokens spell them, with
tags written out in full and aliases replaced by what they stand for.

A name can be anchored again; an alias stands for the latest anchor before it. An
alias inside the node that it names has no meaning.
-/

namespace Bitpress.Yaml

/-- A node of a document; `first` tells whether it stands at the very beginning of the text. -/
inductive Node
  | scalar (text : String) (plain : Bool) (tag : Option String) (first : Bool)
  | list (items : List Node) (tag : Option String) (first : Bool)
  | map (entries : List (Node × Node)) (tag : Option String) (first : Bool)
deriving Inhabited

namespace Node

/-- The node of a place where nothing is written. -/
def empty : Node := .scalar "" true none false

end Node

/-- A node together with its nesting depth and the number of aliases met inside it. -/
structure Measured where
  node : Node
  depth : Nat := 0
  aliases : Nat := 0
deriving Inhabited

/-- What an anchor names; nothing while its node is still being read. -/
abbrev Anchors := Table (Option Measured)

/-- The tokens that are left, and what was said before them. -/
structure NodeReader where
  tokens : List Placed
  anchors : Anchors := []
  /-- What each tag handle stands for. -/
  handles : Table String
  /-- How many nodes were written. -/
  written : Nat := 0

/-- A step of reading; it has no result when the tokens spell no node. -/
abbrev Reading (α : Type) := StateT NodeReader Option α

namespace Reading

def peek? : Reading (Option Token) := return (← get).tokens.head?.map Placed.token

def skip : Reading Unit := modify fun s => { s with tokens := s.tokens.drop 1 }

/-- Whether the next token is one of some tokens. -/
def sees (ts : List Token) : Reading Bool := return (← peek?).any ts.contains

/-- Passes a token that has to come next. -/
def expect (t : Token) : Reading Unit := do if ← sees [t] then skip else failure

/-- A node where nothing is written. -/
def nothing : Reading Measured := do
  modify fun s => { s with written := s.written + 1 }
  return ⟨.empty, 0, 0⟩

def standsFirst : Reading Bool := return (← get).tokens.head?.any Placed.first

end Reading

/-- What stands before a node. -/
structure Properties where
  anchor : Option String := none
  tag : Option String := none

namespace Properties

def tagOf (handle suffix : String) : Reading String := do
  if handle = "" then return suffix
  else
    match (← get).handles.valueAt? handle with
    | some start => return start ++ suffix
    | none => failure

/-- Reads an anchor and a tag, in either order. -/
def read : Reading Properties := do
  match ← Reading.peek? with
  | some (.anchor name) => do
    Reading.skip
    match ← Reading.peek? with
    | some (.tag handle suffix) => do
      Reading.skip
      return ⟨some name, some (← tagOf handle suffix)⟩
    | _ => return ⟨some name, none⟩
  | some (.tag handle suffix) => do
    Reading.skip
    match ← Reading.peek? with
    | some (.anchor name) => do
      Reading.skip
      return ⟨some name, some (← tagOf handle suffix)⟩
    | _ => return ⟨none, some (← tagOf handle suffix)⟩
  | _ => return {}

end Properties

namespace Reading

def openAnchor (name : Option String) : Reading Unit :=
  match name with
  | some name => modify fun s => { s with anchors := s.anchors.put name none }
  | none => pure ()

/-- Names a node that was read, if the name was not given to another node inside it. -/
def closeAnchor (name : Option String) (m : Measured) : Reading Unit :=
  match name with
  | some name => modify fun s =>
    if (s.anchors.valueAt? name).any Option.isNone then { s with anchors := s.anchors.put name (some m) }
    else s
  | none => pure ()

def aliased (name : String) : Reading Measured := do
  match (← get).anchors.valueAt? name with
  | some (some m) => do
    modify fun s => { s with written := s.written + 1 }
    return { m with aliases := m.aliases + 1 }
  | _ => failure

def listOf (tag : Option String) (first : Bool) (items : List Measured) : Measured :=
  ⟨.list (items.map Measured.node) tag first, (items.map Measured.depth).foldl Nat.max 0 + 1,
    items.foldl (fun n m => n + m.aliases) 0⟩

def mapOf (tag : Option String) (first : Bool) (entries : List (Measured × Measured)) : Measured :=
  ⟨.map (entries.map fun e => (e.1.node, e.2.node)) tag first,
    (entries.map fun e => Nat.max e.1.depth e.2.depth).foldl Nat.max 0 + 1,
    entries.foldl (fun n e => n + (e.1.aliases + e.2.aliases)) 0⟩

/-- The tag of a written scalar; a lone exclamation mark says nothing about it. -/
def scalarTag (tag : Option String) : Option String := if tag = some "!" then none else tag

/-- A node of which only an anchor or a tag is written. -/
def bare (p : Properties) (first : Bool) : Reading Measured :=
  if p.anchor.isSome || p.tag.isSome then return ⟨.scalar "" true p.tag first, 0, 0⟩ else failure

mutual

/-- Reads a node, in a block or in a flow collection; the list of a block map need not be indented. -/
def node (block indentless : Bool) : (fuel : Nat) → Reading Measured
  | 0 => failure
  | fuel + 1 => do
    match ← peek? with
    | some (.reference name) => do
      skip
      aliased name
    | _ => do
      let first ← standsFirst
      let p ← Properties.read
      openAnchor p.anchor
      modify fun s => { s with written := s.written + 1 }
      let m ← content block indentless p first fuel
      closeAnchor p.anchor m
      return m

/-- Reads what stands after the anchor and the tag of a node. -/
def content (block indentless : Bool) (p : Properties) (first : Bool) : (fuel : Nat) → Reading Measured
  | 0 => failure
  | fuel + 1 => do
    match ← peek? with
    | some .blockEntry =>
      if indentless then return listOf p.tag first (← indentlessItems fuel) else bare p first
    | some (.scalar text plain) => do
      skip
      return ⟨.scalar text plain (scalarTag p.tag) first, 0, 0⟩
    | some .flowListStart => do
      skip
      return listOf p.tag first (← flowItems true fuel)
    | some .flowMapStart => do
      skip
      return mapOf p.tag first (← flowEntries true fuel)
    | some .blockListStart =>
      if block then do
        skip
        return listOf p.tag first (← blockItems fuel)
      else bare p first
    | some .blockMapStart =>
      if block then do
        skip
        return mapOf p.tag first (← blockEntries fuel)
      else bare p first
    | _ => bare p first

/-- Reads a node of a block collection, or nothing if one of some tokens comes next. -/
def blockNodeUnless (ends : List Token) (indentless : Bool) : (fuel : Nat) → Reading Measured
  | 0 => failure
  | fuel + 1 => do if ← sees ends then nothing else node true indentless fuel

def flowNodeUnless (ends : List Token) : (fuel : Nat) → Reading Measured
  | 0 => failure
  | fuel + 1 => do if ← sees ends then nothing else node false false fuel

def blockItems : (fuel : Nat) → Reading (List Measured)
  | 0 => failure
  | fuel + 1 => do
    if ← sees [.blockEntry] then
      skip
      let m ← blockNodeUnless [.blockEntry, .blockEnd] false fuel
      return m :: (← blockItems fuel)
    else
      expect .blockEnd
      return []

def indentlessItems : (fuel : Nat) → Reading (List Measured)
  | 0 => failure
  | fuel + 1 => do
    if ← sees [.blockEntry] then
      skip
      let m ← blockNodeUnless [.blockEntry, .key, .value, .blockEnd] false fuel
      return m :: (← indentlessItems fuel)
    else return []

def blockEntries : (fuel : Nat) → Reading (List (Measured × Measured))
  | 0 => failure
  | fuel + 1 => do
    if ← sees [.key] then
      skip
      let k ← blockNodeUnless [.key, .value, .blockEnd] true fuel
      if ← sees [.value] then
        skip
        let v ← blockNodeUnless [.key, .value, .blockEnd] true fuel
        return (k, v) :: (← blockEntries fuel)
      else return (k, ← nothing) :: (← blockEntries fuel)
    else
      expect .blockEnd
      return []

/-- Reads the value of an entry of a flow collection. -/
def flowValue (close : Token) : (fuel : Nat) → Reading Measured
  | 0 => failure
  | fuel + 1 => do
    if ← sees [.value] then
      skip
      flowNodeUnless [.flowEntry, close] fuel
    else nothing

/-- Reads the items of a flow list and its end. An item with a key is a map of one entry; where its key
is missing, the token that shows so is passed. -/
def flowItems (atStart : Bool) : (fuel : Nat) → Reading (List Measured)
  | 0 => failure
  | fuel + 1 => do
    if ← sees [.flowListEnd] then
      skip
      return []
    else
      if !atStart then expect .flowEntry
      if ← sees [.key] then
        skip
        modify fun s => { s with written := s.written + 1 }
        let missing ← sees [.value, .flowEntry, .flowListEnd]
        if missing then skip
        let k ← if missing then nothing else node false false fuel
        let v ← flowValue .flowListEnd fuel
        return mapOf none false [(k, v)] :: (← flowItems false fuel)
      else if ← sees [.flowListEnd] then
        skip
        return []
      else
        let m ← node false false fuel
        return m :: (← flowItems false fuel)

/-- Reads the entries of a flow map and its end. -/
def flowEntries (atStart : Bool) : (fuel : Nat) → Reading (List (Measured × Measured))
  | 0 => failure
  | fuel + 1 => do
    if ← sees [.flowMapEnd] then
      skip
      return []
    else
      if !atStart then expect .flowEntry
      if ← sees [.key] then
        skip
        let k ← flowNodeUnless [.value, .flowEntry, .flowMapEnd] fuel
        let v ← flowValue .flowMapEnd fuel
        return (k, v) :: (← flowEntries false fuel)
      else if ← sees [.flowMapEnd] then
        skip
        return []
      else
        let k ← node false false fuel
        return (k, ← nothing) :: (← flowEntries false fuel)

end

end Reading

/-! ### Documents -/

/-- What the lines before a document say. -/
structure Directives where
  version : Bool := false
  handles : Table String := []

def Directives.add? (d : Directives) : Token → Option Directives
  | .version major minor =>
    if d.version || major != 1 || (minor != 1 && minor != 2) then none else some { d with version := true }
  | .tagDirective handle start =>
    if d.handles.hasKey handle then none else some { d with handles := d.handles.put handle start }
  | _ => none

def defaultHandles : Table String := [("!", "!"), ("!!", "tag:yaml.org,2002:")]

def isDirective : Token → Bool
  | .version .. => true
  | .tagDirective .. => true
  | _ => false

/-- The first node of a text, and whether the text ends with its document. -/
structure Document where
  root : Node
  complete : Bool

/-- At most this many collections stand inside each other. -/
def deepestNode : Nat := 128

/-- A document with more aliases than this for each of its nodes is refused. -/
def aliasesPerNode : Nat := 100

/-- Reads the root of a document. After the mark that begins a document nothing may follow. -/
def rootOf (marked : Bool) (fuel : Nat) : Reading Measured := do
  let ended : Option Token → Bool
    | none => true
    | some .documentEnd => true
    | some .documentStart => true
    | some t => isDirective t
  if marked && ended (← Reading.peek?) then Reading.nothing else Reading.node true false fuel

/-- Reads the document of a token list; nothing for an empty list, none when it is malformed. -/
def document? (tokens : List Placed) : Option Document := do
  let head := tokens.takeWhile fun p => isDirective p.token
  let rest := tokens.drop head.length
  let directives ← (head.map Placed.token).foldlM Directives.add? {}
  let handles := defaultHandles.foldl
    (fun t e => if t.hasKey e.1 then t else t.put e.1 e.2) directives.handles
  match rest with
  | [] => if head.isEmpty then return ⟨.empty, true⟩ else none
  | first :: more =>
    let marked := first.token == .documentStart
    if !head.isEmpty && !marked then none
    else
      let start : NodeReader := { tokens := if marked then more else rest, handles := handles }
      let (m, s) ← (rootOf marked (4 * tokens.length + 8)).run start
      if deepestNode < m.depth || aliasesPerNode * s.written < m.aliases then none
      else return ⟨m.node, s.tokens.all fun p => p.token == .documentEnd⟩

end Bitpress.Yaml
