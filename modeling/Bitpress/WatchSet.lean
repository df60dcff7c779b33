import Bitpress.Files

/-!
The files that a watched build reads. An event counts if it changes what is in one
of them; everything else, the output of the build included, is passed over.
-/

namespace Bitpress

namespace Location

def Part.rank : Part → Nat
  | .root => 0
  | .current => 1
  | .parent => 2
  | .name _ => 3

def Part.order : Part → Part → Ordering
  | .name s, .name t => Text.order s t
  | a, b => compare a.rank b.rank

def orderParts : List Part → List Part → Ordering
  | [], [] => .eq
  | [], _ :: _ => .lt
  | _ :: _, [] => .gt
  | a :: as, b :: bs => (a.order b).then (orderParts as bs)

/-- The order of locations part by part. -/
def order (p q : Location) : Ordering := orderParts p.parts q.parts

/-- Adds a location to a list in order, unless it is there. -/
def addTo (p : Location) : List Location → List Location
  | [] => [p]
  | q :: rest =>
    match order p q with
    | .lt => p :: q :: rest
    | .eq => q :: rest
    | .gt => q :: addTo p rest

/-- The locations in order, each once. -/
def inOrder (ps : List Location) : List Location := ps.foldl (fun acc p => p.addTo acc) []

end Location

/-- What happened to a file. -/
inductive FileChange
  | accessed
  | created
  | removed
  /-- Its content or its name is another one. -/
  | modified
  /-- Only what is recorded about it is another one. -/
  | touched
  | unknown
deriving DecidableEq, Inhabited

/-- Whether the content of a file can be another one afterwards. -/
def FileChange.affectsContent : FileChange → Bool
  | .created | .modified => true
  | _ => false

structure FileEvent where
  change : FileChange
  paths : List Location
deriving DecidableEq, Inhabited

/-- The watched files in order, each once and without detours. -/
structure WatchSet where
  files : List Location := []
deriving DecidableEq, Inhabited

namespace WatchSet

/-- The location of a file without detours, if it is there. -/
def settled (t : FileTree) (p : Location) : Location := (t.canonical? p).getD p

def ofList (t : FileTree) (ps : List Location) : WatchSet := ⟨Location.inOrder (ps.map (settled t))⟩

def contains (w : WatchSet) (t : FileTree) (p : Location) : Bool := w.files.any fun q => (settled t p).same q

/-- The directories of the watched files that are there. -/
def directories (w : WatchSet) (t : FileTree) : List Location :=
  Location.inOrder ((w.files.filterMap Location.parent?).filter t.isDirectory)

/-- Whether an event changes the content of a watched file. -/
def isTriggeredBy (w : WatchSet) (t : FileTree) (e : FileEvent) : Bool :=
  e.change.affectsContent && e.paths.any (w.contains t)

end WatchSet

end Bitpress
