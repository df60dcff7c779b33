import Bitpress.Collection
import Bitpress.Library
import Bitpress.Target
import Bitpress.Template.Render

/-!
The store of registries. A registry is the outcome of loading one file: its bits,
constants and targets with those of the registries that it imports. The store
keeps every registry that was ever asked for. What a load produces replaces what
the load before it produced as a whole; a failed load leaves it alone.
-/

namespace Bitpress

/-- How much of a registry a load builds. -/
inductive LoadMode
  /-- Bits, constants and targets. -/
  | full
  /-- Bits and constants only, as imports need them. -/
  | dependency
deriving DecidableEq, Inhabited

inductive LoadStatus
  | unloaded
  | loading
  | loaded
  /-- The last load failed; the contents are those of the load before it. -/
  | failed
deriving DecidableEq, Inhabited

def LoadStatus.name : LoadStatus → String
  | .unloaded => "Unloaded"
  | .loading => "Loading"
  | .loaded => "Loaded"
  | .failed => "Failed"

/-- What a successful load produces. -/
structure Contents where
  document : Option RegistryDocument := none
  bits : Collection Bit := .empty
  constants : Collection Constant := .empty
  targets : Collection Target := .empty
  /-- The registries that this one was built from. -/
  dependencies : List Location := []
deriving Inhabited

/-- A target as it is declared, before inheritance. -/
def Contents.declaredTarget? (c : Contents) (name : String) : Option TargetDecl :=
  c.document.bind fun d => d.target? name

structure Registry where
  path : Location
  status : LoadStatus := .unloaded
  generation : Nat := 0
  /-- The mode of the last successful load. -/
  mode : Option LoadMode := none
  contents : Contents := {}
deriving Inhabited

namespace Registry

/-- Whether a registry was loaded in a generation. -/
def isCurrent (r : Registry) (generation : Nat) : Bool :=
  r.status == .loaded && r.generation == generation

/-- The mode to load a registry in: one that had targets keeps them. -/
def modeFor (r : Registry) (mode : LoadMode) : LoadMode :=
  if r.mode = some .full then .full else mode

def target? (r : Registry) (name : String) : Option Target := r.contents.targets.findByName? name

def declaredTarget? (r : Registry) (name : String) : Option TargetDecl := r.contents.declaredTarget? name

/-- The registry's document in the format of a location. -/
def dump (r : Registry) (p : Location) : Outcome String :=
  match r.contents.document with
  | none => .error (.registryNotFound r.path.text)
  | some d => do Document.print (← DocumentFormat.ofLocation p) d

end Registry

/-- What loads say about themselves. -/
inductive LoadEvent
  | loading (p : Location) (mode : LoadMode)
  | failed (p : Location)
deriving DecidableEq

structure Store where
  registries : List Registry := []
  generation : Nat := 0
  /-- What the loads so far said. -/
  trace : List LoadEvent := []
  /-- The resolved defaults of bits; what is set stays. -/
  defaults : List (ElementId × Context) := []
  session : Session := {}
deriving Inhabited

namespace Store

/-- The registry of a file, if it was ever asked for. -/
def registry? (s : Store) (p : Location) : Option Registry := s.registries.find? fun r => r.path == p

/-- The registry of a file; one that nobody asked for is not loaded. -/
def registry (s : Store) (p : Location) : Registry := (s.registry? p).getD { path := p }

/-- Replaces the registry of the same file, or adds it. -/
def put (s : Store) (r : Registry) : Store :=
  { s with
    registries :=
      if s.registries.any fun q => q.path == r.path then
        s.registries.map fun q => if q.path == r.path then r else q
      else s.registries ++ [r] }

/-- Takes note of an event. -/
def say (s : Store) (e : LoadEvent) : Store := { s with trace := s.trace ++ [e] }

/-- The resolved defaults of a bit, once its registry has loaded. -/
def defaults? (s : Store) (id : ElementId) : Option Context :=
  (s.defaults.find? fun e => e.1 == id).map Prod.snd

/-- Remembers the resolved defaults of a bit, unless there are some. -/
def putDefaults (s : Store) (id : ElementId) (c : Context) : Store :=
  if (s.defaults? id).isSome then s else { s with defaults := (id, c) :: s.defaults }

/-- What templates are rendered with. -/
def renderer (s : Store) : Renderer := { defaults := fun id => (s.defaults? id).getD [] }

/-- The registry at a location if it was ever asked for, without loading it. -/
def cached? (s : Store) (l : Library) (p : Location) : Option Registry :=
  match l.locate p with
  | .ok found => s.registry? found
  | .error _ => none

/-- The registries that those `pending` lead to through their dependencies, each once, after those
`seen`. Every round takes a registry that was not seen before. -/
def reach (s : Store) (fuel : Nat) (seen pending : List Location) : List Location :=
  match fuel, pending with
  | 0, _ | _, [] => seen
  | fuel + 1, p :: rest =>
    let found := ((s.registry p).contents.dependencies).foldl
      (fun acc d => if acc.contains d || seen.contains d then acc else acc ++ [d]) ([] : List Location)
    s.reach fuel (seen ++ found) (found.reverse ++ rest)

/-- How many locations the store knows, dependencies counted as often as they are named. -/
def mentions (s : Store) : Nat :=
  Library.total (fun r => r.contents.dependencies.length + 1) s.registries

/-- A registry and all that it depends on, to be watched for changes. -/
def watchPaths (s : Store) (l : Library) (p : Location) : List Location :=
  match l.locate p with
  | .error _ => [p]
  | .ok root => s.reach (s.mentions + 1) [root] [root]

end Store

/-- A step that may fail and that may change the store. -/
abbrev StoreM (α : Type) := ExceptT Error (StateM Store) α

namespace StoreM

/-- Runs a step on the session of the store. -/
def press (step : Press α) : StoreM α := do
  let s ← getThe Store
  let (r, session) := StateT.run (ExceptT.run step) s.session
  set { s with session }
  match r with
  | .ok a => return a
  | .error e => throw e

/-- Puts a sentence around the error of a step. -/
def within (context : String) (step : StoreM α) : StoreM α :=
  tryCatch step fun e => throw (.within context e)

end StoreM

end Bitpress
