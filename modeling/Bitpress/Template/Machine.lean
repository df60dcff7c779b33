import Bitpress.Template.Filter
import Bitpress.Template.Free

/-!
The state of a template run: what has been printed, the frames of variables, the
blocks of the templates that inherit from one another, and the values that can
change while others refer to them.
-/

namespace Bitpress.Template

/-- Where a frame looks up a name that it has no variable for. -/
inductive Backdrop
  | nothing
  | context (t : Table Value)
  | closure (place : Nat)
deriving Inhabited

/-- The loop that a frame belongs to, and what its repetition does. -/
structure FrameLoop where
  place : Nat
  again : Option (Target × List Statement)

structure Frame where
  locals : Table Value := []
  backdrop : Backdrop := .nothing
  /-- The closure that receives what is assigned here. -/
  enclosed : Option Nat := none
  loop : Option FrameLoop := none

/-- How far a loop has come. -/
structure Round where
  items : Array Value
  length : Option Nat
  depth : Nat
  index : Nat := 0
  lastSeen : Option (List Value) := none
deriving Inhabited

/-- What templates can ask of a loop. -/
def Round.member? (r : Round) (key : String) : Option Value :=
  let ofLength (f : Nat → Nat) : Option Value :=
    some ((r.length.map fun n => Value.nat (f n)).getD .undefined)
  let itemAt (i : Nat) : Option Value := some (r.items[i]?.getD .undefined)
  match key with
  | "index0" => some (.nat r.index)
  | "index" => some (.nat (r.index + 1))
  | "length" => ofLength id
  | "revindex" => ofLength (· - r.index)
  | "revindex0" => ofLength (· - r.index - 1)
  | "first" => some (.bool (r.index = 0))
  | "last" => some (.bool (r.items.size ≤ r.index + 1))
  | "depth" => some (.nat (r.depth + 1))
  | "depth0" => some (.nat r.depth)
  | "previtem" => if r.index = 0 then some .undefined else itemAt (r.index - 1)
  | "nextitem" => itemAt (r.index + 1)
  | _ => none

/-- The versions of a block, the innermost one first, and which of them runs. -/
structure Layers where
  versions : List (List Statement)
  current : Nat := 0
deriving Inhabited

structure Machine where
  out : String := ""
  /-- Whether what is printed is dropped. -/
  muted : Bool := false
  /-- The frames, the innermost one first. -/
  frames : List Frame
  /-- The nesting outside of the frames. -/
  outer : Nat := 0
  closures : Array (Table Value) := #[]
  spaces : Array (Table Value) := #[]
  rounds : Array Round := #[]
  blocks : Table Layers := []
  currentBlock : Option String := none
  escaping : Escaping := .none
  /-- The templates that this one inherits from, by name. -/
  ancestors : List String := []
  /-- The template to go on with. -/
  parent : Option Script := none

/-- A step of a template run. -/
abbrev Run (α : Type) := ExceptT TemplateFault (StateM Machine) α

namespace Run

open Value (Reply)

def lift {α : Type} (r : Reply α) : Run α :=
  match r with
  | .ok a => pure a
  | .error fault => throw fault

instance : MonadLift (Except TemplateFault) (ExceptT TemplateFault (StateM Machine)) := ⟨lift⟩

def write (s : String) : Run Unit :=
  modify fun m => if m.muted then m else { m with out := m.out ++ s }

/-- What a step prints, instead of printing it. -/
def captured (step : Run Unit) : Run String := do
  let m ← get
  set { m with out := "", muted := false }
  step
  let inner ← get
  set { inner with out := m.out, muted := m.muted }
  return inner.out

/-- Runs a step and drops what it prints. -/
def silently {α : Type} (step : Run α) : Run α := do
  let muted := (← get).muted
  modify fun m => { m with muted := true }
  let a ← step
  modify fun m => { m with muted := muted }
  return a

/-- A captured text as a value; nothing in it is escaped again. -/
def capturedValue (step : Run Unit) : Run Value := do
  let s ← captured step
  return .str s ((← get).escaping != .none)

/-! ### Frames -/

/-- How deep frames, macros and inserted templates may nest. -/
def deepest : Nat := 500

def insertCost : Nat := 10

def macroCost : Nat := 4

def checkDepth : Run Unit := do
  let m ← get
  if deepest < m.outer + m.frames.length then throw .invalidOperation

def popFrame : Run Unit := modify fun m => { m with frames := m.frames.drop 1 }

/-- Runs a step in a new frame. -/
def inFrame {α : Type} (frame : Frame) (step : Run α) : Run α := do
  checkDepth
  modify fun m => { m with frames := frame :: m.frames }
  let a ← step
  popFrame
  return a

def globals : Table Value :=
  [("range", .builtin .range), ("dict", .builtin .dictionary), ("namespace", .builtin .attributes),
    ("debug", .builtin .debug)]

def closureAt (m : Machine) (place : Nat) : Table Value := m.closures[place]?.getD []

/-- What a name stands for in one frame. -/
def lookupIn (m : Machine) (name : String) (f : Frame) : Option Value :=
  let fromLoop := if name = "loop" then f.loop.map fun l => Value.loop l.place else none
  let fromBackdrop := match f.backdrop with
    | .nothing => none
    | .context t => t.valueAt? name
    | .closure place => (closureAt m place).valueAt? name
  f.locals.valueAt? name <|> fromLoop <|> fromBackdrop

/-- What a name stands for: the innermost frame that knows it counts. -/
def lookup? (name : String) : Run (Option Value) := do
  let m ← get
  return m.frames.findSome? (lookupIn m name) <|> globals.valueAt? name

/-- Gives a name a value in the innermost frame. -/
def store (name : String) (v : Value) : Run Unit :=
  modify fun m =>
    match m.frames with
    | [] => m
    | f :: rest =>
      let closures := match f.enclosed with
        | some place => m.closures.modify place fun t => t.put name v
        | none => m.closures
      { m with frames := { f with locals := f.locals.put name v } :: rest, closures }

/-- The closure of the innermost frame, with the given names taken along. -/
def enclose (names : List String) : Run (Option Nat) := do
  match (← get).frames with
  | [] => return none
  | f :: rest =>
    if names.isEmpty then return f.enclosed
    let place ← match f.enclosed with
      | some place => pure place
      | none => do
        let place := (← get).closures.size
        modify fun m =>
          { m with closures := m.closures.push [], frames := { f with enclosed := some place } :: rest }
        pure place
    for name in names do
      unless (closureAt (← get) place).hasKey name do
        let v := (← lookup? name).getD .undefined
        modify fun m => { m with closures := m.closures.modify place fun t => t.put name v }
    return some place

/-- Gives a target a value. A list is taken apart for several targets. -/
def unpack (count : Nat) (v : Value) : Run (List Value) := do
  if !v.isListLike then throw .cannotUnpack
  let items := v.items?.getD []
  if items.length = count then return items else throw .cannotUnpack

/-! ### Loops and namespaces -/

def roundAt (place : Nat) : Run Round := return (← get).rounds[place]?.getD default

/-- The innermost loop. -/
def innermostLoop? : Run (Option FrameLoop) := return (← get).frames.findSome? Frame.loop

/-- Starts counting a new loop. A repetition of a recursive loop lies one level deeper. -/
def startRound (items : List Value) (length : Option Nat) : Run Nat := do
  let depth ← match ← innermostLoop? with
    | some l => if l.again.isSome then pure ((← roundAt l.place).depth + 1) else pure 0
    | none => pure 0
  let place := (← get).rounds.size
  modify fun m => { m with rounds := m.rounds.push { items := items.toArray, length, depth } }
  return place

def setIndex (place index : Nat) : Run Unit :=
  modify fun m => { m with rounds := m.rounds.modify place fun r => { r with index } }

/-- The member of a value; loops and namespaces are asked for their present state. -/
def member? (v key : Value) : Run (Option Value) := do
  match v with
  | .loop place => return key.str?.bind (Round.member? (← roundAt place))
  | .space place =>
    return key.str?.bind (((← get).spaces[place]?.getD []).valueAt? ·)
  | v => return v.member? key

def memberOf (v key : Value) : Run Value := do
  if v.isUndefined then throw .undefinedValue
  return (← member? v key).getD .undefined

/-- Gives a namespace an attribute. -/
def setAttribute (v : Value) (name : String) (content : Value) : Run Unit := do
  match v with
  | .space place =>
    modify fun m => { m with spaces := m.spaces.modify place fun t => t.put name content }
  | _ => throw .invalidOperation

def newSpace (content : Table Value) : Run Value := do
  let place := (← get).spaces.size
  modify fun m => { m with spaces := m.spaces.push content }
  return .space place

/-- Whether the arguments differ from those of the last call. -/
def changed (place : Nat) (args : List Value) : Run Value := do
  let r ← roundAt place
  let same := match r.lastSeen with
    | some seen => seen.length == args.length && (seen.zip args).all fun p => p.1.equal p.2
    | none => false
  unless same do
    modify fun m => { m with rounds := m.rounds.modify place fun r => { r with lastSeen := some args } }
  return .bool !same

/-! ### Blocks -/

/-- Adds the blocks of a template behind those that are there. -/
def addBlocks (blocks : Table (List Statement)) : Run Unit :=
  modify fun m =>
    { m with
      blocks := blocks.foldl (fun acc e =>
        match acc.valueAt? e.1 with
        | some layers => acc.put e.1 { layers with versions := layers.versions ++ [e.2] }
        | none => acc.put e.1 ⟨[e.2], 0⟩) m.blocks }

def layersOf (blocks : Table (List Statement)) : Table Layers :=
  blocks.map fun e => (e.1, ⟨[e.2], 0⟩)

def setLayer (name : String) (current : Nat) : Run Unit :=
  modify fun m =>
    { m with blocks := match m.blocks.valueAt? name with
      | some layers => m.blocks.put name { layers with current }
      | none => m.blocks }

end Run

end Bitpress.Template
