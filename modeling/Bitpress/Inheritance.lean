import Bitpress.Legacy
import Bitpress.Override

/-!
Target inheritance. A target names its bases, in its own file or as
`path::Name` in another one. The bases are merged from left to right, each
followed by its own overrides; the parts of the target are merged on top by its
policies, and its overrides come last.

A base is resolved once and kept in a memo, without its overrides. A base that is
being resolved already closes a cycle, which the trail of the targets being
resolved shows.
-/

namespace Bitpress

/-- A merged target: what a target without bases declares. -/
structure TargetSpec where
  template : Option String := none
  dest : Option String := none
  context : Table Tree := []
  queries : Table Tree := []
  compose : Table Tree := []
deriving Inhabited

namespace TargetSpec

/-- The spec that a target declares itself. -/
def ofDecl (d : TargetDecl) : TargetSpec :=
  let lifted := Legacy.lift d.context d.queries
  ⟨d.template, d.dest, lifted.context, lifted.queries, d.compose⟩

def toTable (s : TargetSpec) : Table Tree :=
  Encode.optional "template" .str s.template ++ Encode.optional "dest" .str s.dest ++
    [("context", .map s.context), ("queries", .map s.queries), ("compose", .map s.compose)]

def toTree (s : TargetSpec) : Tree := .map s.toTable

/-- The spec of a tree; a part that has become something else counts as missing. -/
def ofTree (t : Tree) : TargetSpec :=
  let part (key : String) : Table Tree := ((t.valueAt? key).bind Tree.table?).getD []
  let word (key : String) : Option String := (t.valueAt? key).bind Tree.str?
  ⟨word "template", word "dest", part "context", part "queries", part "compose"⟩

end TargetSpec

/-- Where targets are declared. A source answers in a monad, because it may have to load a registry. -/
structure TargetSource (m : Type → Type) where
  /-- The declaration of a target in a file. -/
  declaration : Location → String → ExceptT Error m (Option TargetDecl)
  /-- The file that a reference written in another file means. -/
  locate : Location → String → ExceptT Error m Location
  /-- Takes note of warnings. -/
  warn : List Warning → m Unit

namespace Inheritance

/-- A base that has been resolved: its tree without its overrides, and these. -/
structure Resolved where
  tree : Tree
  overrides : List OverrideDecl

/-- The bases resolved so far, the latest first. -/
abbrev Memo := List (TargetKey × Resolved)

def Memo.find? (memo : Memo) (key : TargetKey) : Option Resolved :=
  (List.find? (fun e => e.1.same key) memo).map Prod.snd

/-- A resolver at work: the targets being resolved, outermost first, and the bases resolved so far. -/
structure Visit where
  trail : List TargetKey := []
  memo : Memo := []

/-- A step of resolution: it may fail, and keeps what it did to the visit when it does. -/
abbrev Step (m : Type → Type) (α : Type) := ExceptT Error (StateT Visit m) α

variable {m : Type → Type} [Monad m]

/-- Runs a step of the source. -/
def ask (step : ExceptT Error m α) : Step m α :=
  ExceptT.mk fun v => do
    let r ← step.run
    return (r, v)

def note (source : TargetSource m) (warnings : List Warning) : Step m Unit :=
  ExceptT.mk fun v => do
    source.warn warnings
    return (.ok (), v)

def ofOutcome (r : Outcome α) : Step m α := ExceptT.mk fun v => return (r, v)

/-- A reference cut at its last double colon: the file, if there is one, and the name. -/
def splitReference (reference : String) : Option String × String :=
  match Text.cutAt? [':', ':'] reference.toList.reverse with
  | some (name, file) =>
    (some (Text.trim (String.ofList file.reverse)), Text.trim (String.ofList name.reverse))
  | none => (none, Text.trim reference)

/-- The target that a reference written in a file means. -/
def keyOf (source : TargetSource m) (file : Location) (reference : String) : Step m TargetKey := do
  match splitReference reference with
  | (some other, name) => return ⟨← ask (source.locate file other), name⟩
  | (none, name) => return ⟨file, name⟩

/-- Puts a target on a trail; one that is there already closes a cycle. -/
def enter (trail : List TargetKey) (key : TargetKey) : Outcome (List TargetKey) :=
  match trail.findIdx? fun k => k.same key with
  | some i => .error (.reference (.targetCycle (trail.drop i ++ [key])))
  | none => .ok (trail ++ [key])

/-- Runs a step with a target on the trail, and takes the last target off the trail again, whether the
step fails or not. -/
def visiting (key : TargetKey) (step : Step m α) : Step m α :=
  ExceptT.mk fun v =>
    match enter v.trail key with
    | .error e => return (.error e, v)
    | .ok trail => do
      let (r, after) ← step.run { v with trail }
      return (r, { after with trail := after.trail.dropLast })

/-- The policy for a part of a target; what has no policy is replaced. -/
def policyOf (hints : MergeHints) (key : String) : Outcome MergePolicy :=
  match key with
  | "context" => hints.policy .context
  | "queries" => hints.policy .queries
  | "compose" => hints.policy .compose
  | _ => .ok .replace

/-- Merges one part of a target over what its bases gave. -/
def mergePart (hints : MergeHints) (acc : Table Tree) (key : String) (value : Tree) :
    Outcome (Table Tree) := do
  match ← policyOf hints key, acc.valueAt? key with
  | .merge, some there => return acc.put key (there.merge .indexWise value)
  | _, _ => return acc.put key value

/-- Merges the parts that a target declares over what its bases gave. -/
def mergeOwn (d : TargetDecl) (tree : Tree) : Outcome Tree := do
  match tree with
  | .map acc =>
    return .map (← (TargetSpec.ofDecl d).toTable.foldlM (fun acc e => mergePart d.merge acc e.1 e.2) acc)
  | other => return other

/-- Merges a base over the bases before it and carries out its overrides. -/
def mergeBase (tree : Tree) (base : Resolved) : Outcome Tree :=
  OverrideDecl.applyAll base.overrides (tree.merge .indexWise base.tree)

def legacyWarnings (d : TargetDecl) : List Warning := Legacy.warnings d.context d.queries

/-- The name of a target in messages about its bases. -/
def derivedName (d : TargetDecl) : String := d.name.getD "<unnamed>"

/-- A base: the one of the memo, else what `load` gives while the base is on the trail. -/
def lookUp (load : TargetKey → Step m Resolved) (key : TargetKey) : Step m Resolved := do
  match (← getThe Visit).memo.find? key with
  | some base => return base
  | none =>
    let base ← visiting key (load key)
    modifyThe Visit fun v => { v with memo := (key, base) :: v.memo }
    return base

/-- The base that a reference written in a file means. `load` resolves it. -/
def baseOf (source : TargetSource m) (load : String → TargetKey → Step m Resolved) (file : Location)
    (reference : String) : Step m Resolved := do
  lookUp (load reference) (← keyOf source file reference)

/-- Merges the bases of a target and its own parts. `load` resolves the bases. -/
def foldOver (source : TargetSource m) (load : String → TargetKey → Step m Resolved) (file : Location)
    (d : TargetDecl) : Step m Tree := do
  let tree ← d.bases.foldlM (fun tree reference => do
    let base ← baseOf source load file reference
    ofOutcome (mergeBase tree base)) (TargetSpec.toTree {})
  note source (legacyWarnings d)
  ofOutcome (mergeOwn d tree)

/-- Merges the bases of a target and its own parts; its overrides are not carried out. `room` is how
many more targets the trail can take. -/
def fold (source : TargetSource m) (room : Nat) (file : Location) (d : TargetDecl) : Step m Tree :=
  match room with
  | 0 => foldOver source (fun _ _ => throw .depthExceeded) file d
  | room + 1 =>
    foldOver source (fun reference key => do
      match ← ask (source.declaration key.file key.name) with
      | none => throw (.reference (.missingBase (derivedName d) reference key.file))
      | some base => return ⟨← fold source room key.file base, base.overrides⟩) file d

/-- A target merged, with its own overrides carried out. -/
def merged (source : TargetSource m) (room : Nat) (file : Location) (d : TargetDecl) : Step m Tree := do
  ofOutcome (OverrideDecl.applyAll d.overrides (← fold source room file d))

/-- The spec of a target declared in a file. A target without a name is not on the trail, as nothing
can refer to it. -/
def specOf (source : TargetSource m) (room : Nat) (file : Location) (d : TargetDecl) :
    Step m TargetSpec :=
  TargetSpec.ofTree <$> match d.name with
    | some name => visiting ⟨file, name⟩ (merged source room file d)
    | none => merged source room file d

/-- The spec of a target, with the bases that were resolved before. Between two targets, a resolver is
its memo. -/
def resolve (source : TargetSource m) (room : Nat) (file : Location) (d : TargetDecl) :
    ExceptT Error (StateT Memo m) TargetSpec :=
  ExceptT.mk fun memo => do
    let (r, v) ← (specOf source room file d).run.run { memo }
    return (r, v.memo)

end Inheritance

end Bitpress
