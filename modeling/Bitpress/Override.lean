import Bitpress.Declaration.Basic
import Bitpress.Override.Path
import Bitpress.Tree.Merge

/-!
Overrides: changes at a path of a tree. A path is checked against the tree before
anything is written, so an override that fails leaves the tree as it was.
-/

namespace Bitpress

inductive OverrideOp
  | set
  /-- Merges the value into what is there, lists position by position. -/
  | merge
  /-- Takes away a key or a place; nothing happens if it is not there. -/
  | remove
deriving DecidableEq, Inhabited

namespace OverrideOp

def read (written : String) : Outcome OverrideOp :=
  let word := Text.trim written
  if word = "set" ∨ word = "replace" then .ok .set
  else if word = "merge" then .ok .merge
  else if word = "remove" ∨ word = "delete" then .ok .remove
  else .error (.unknownOverrideOp word)

/-- The operation of an override; setting when none is written. -/
def ofDecl (o : OverrideDecl) : Outcome OverrideOp :=
  match o.op with
  | some written => read written
  | none => .ok .set

end OverrideOp

namespace Tree

/-- One step down. -/
def step? : Tree → Segment → Option Tree
  | .map entries, .key k => Table.valueAt? entries k
  | .list items, .index n => items[n - 1]?
  | _, _ => none

/-- What stands at the end of a path. -/
def lookup? (t : Tree) : List Segment → Option Tree
  | [] => some t
  | s :: rest => (t.step? s).bind (·.lookup? rest)

/-- The tree with what stands one step down changed. -/
def changeStep (t : Tree) (s : Segment) (change : Tree → Tree) : Tree :=
  match t, s with
  | .map entries, .key k =>
    match Table.valueAt? entries k with
    | some v => .map (Table.put entries k (change v))
    | none => t
  | .list items, .index n => .list (items.modify (n - 1) change)
  | _, _ => t

end Tree

namespace OverridePath

def fault (p : OverridePath) (reason : String) : Error := .overridePath p.raw reason

/-- What a walk has passed, as text. -/
def walked (passed : String) (s : Segment) : String :=
  match s with
  | .key k => if passed = "" then k else passed ++ "." ++ k
  | .index _ => passed ++ s.text

/-- Walks down to the node that holds the last segment. -/
def walk (p : OverridePath) (passed : String) (t : Tree) : List Segment → Outcome Tree
  | [] => .ok t
  | s :: rest =>
    let passed := walked passed s
    match t.step? s with
    | some child => walk p passed child rest
    | none => .error (p.fault ("`" ++ passed ++ "` does not exist"))

/-- Whether an operation can end at a segment of a node. -/
def checkLast (p : OverridePath) (op : OverrideOp) (node : Tree) : Segment → Outcome Unit
  | .key k =>
    if node.isMap then .ok () else .error (p.fault s!"cannot set key `{k}` on a non-map value")
  | .index n =>
    match node with
    | .list items =>
      if op ≠ .remove ∧ items.length < n then
        .error (p.fault s!"index [{n}] is out of range for a list of {items.length} item(s)")
      else .ok ()
    | _ => .error (p.fault s!"cannot index [{n}] into a non-list value")

/-- Checks that an operation can be carried out at the path, without changing anything. -/
def validate (p : OverridePath) (op : OverrideOp) (t : Tree) : Outcome Unit :=
  match p.segments.getLast? with
  | none => .error (p.fault "path is empty")
  | some last => do
    let node ← p.walk "" t p.segments.dropLast
    p.checkLast op node last

/-- Carries out an operation at one segment of a node. -/
def operate (op : OverrideOp) (value : Tree) (node : Tree) : Segment → Tree
  | .key k =>
    match node, op with
    | .map entries, .set => .map (Table.put entries k value)
    | .map entries, .merge =>
      match Table.valueAt? entries k with
      | some there => .map (Table.put entries k (there.merge .indexWise value))
      | none => .map (Table.put entries k value)
    | .map entries, .remove => .map (Table.without entries k)
    | other, _ => other
  | .index n =>
    match node, op with
    | .list items, .set => .list (items.modify (n - 1) fun _ => value)
    | .list items, .merge => .list (items.modify (n - 1) fun there => there.merge .indexWise value)
    | .list items, .remove => .list (items.eraseIdx (n - 1))
    | other, _ => other

/-- Walks down a second time, to carry out the operation in place; gives the tree as it is left. -/
def carryOut (p : OverridePath) (op : OverrideOp) (value : Tree) (t : Tree) : List Segment → Tree × Outcome Unit
  | [] => (t, .error (p.fault "path is empty"))
  | [last] => (operate op value t last, .ok ())
  | s :: next :: rest =>
    match t.step? s with
    | some child =>
      let (left, outcome) := p.carryOut op value child (next :: rest)
      (t.changeStep s fun _ => left, outcome)
    | none => (t, .error (p.fault "path changed during override"))

/-- Carries out an operation at the path, in place, once it is known that it can be. -/
def applyTo (p : OverridePath) (op : OverrideOp) (value : Tree) (t : Tree) : Tree × Outcome Unit :=
  match p.validate op t with
  | .ok () => p.carryOut op value t p.segments
  | .error e => (t, .error e)

/-- The tree after an operation at the path. -/
def apply (p : OverridePath) (op : OverrideOp) (value : Tree) (t : Tree) : Outcome Tree :=
  let (left, outcome) := p.applyTo op value t
  outcome.map fun _ => left

end OverridePath

namespace OverrideDecl

/-- Carries out one declared override on a spec. -/
def apply (o : OverrideDecl) (spec : Tree) : Outcome Tree := do
  let path ← OverridePath.parse o.path
  let op ← OverrideOp.ofDecl o
  path.withinSpec.apply op o.value spec

/-- Carries out one declared override on a spec, in place; gives the spec as it is left. -/
def applyTo (o : OverrideDecl) (spec : Tree) : Tree × Outcome Unit :=
  match OverridePath.parse o.path, OverrideOp.ofDecl o with
  | .ok path, .ok op => path.withinSpec.applyTo op o.value spec
  | .ok _, .error e => (spec, .error e)
  | .error e, _ => (spec, .error e)

/-- Carries out overrides one after the other, in place; gives the tree as it is left, and the error of
the one that stopped them. -/
def applyEach (spec : Tree) : List OverrideDecl → Tree × Option Error
  | [] => (spec, none)
  | o :: rest =>
    match o.applyTo spec with
    | (changed, .ok ()) => applyEach changed rest
    | (left, .error e) => (left, some e)

/-- Carries out overrides one after the other. -/
def applyAll (overrides : List OverrideDecl) (spec : Tree) : Outcome Tree :=
  overrides.foldlM (fun t o => o.apply t) spec

end OverrideDecl

end Bitpress
