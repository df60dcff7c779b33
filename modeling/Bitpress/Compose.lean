import Bitpress.Context
import Bitpress.Declaration.Query
import Bitpress.Random
import Bitpress.Text.SipHash

/-!
Composing: turning the results of named queries into template variables.

A result is one list, or several groups when its name stands for several queries.
Its entry of the compose map shapes it: the groups are joined, repeated items are
dropped, the list is shuffled and cut to length. With `flatten` off the groups
are kept and shuffled and cut as groups. Entries with sources come afterwards and
join what was composed before them.
-/

namespace Bitpress

/-- What the queries of one name found. -/
inductive QueryResult
  | single (items : List ContextValue)
  | multi (groups : List (List ContextValue))
deriving Inhabited

namespace QueryResult

def groups : QueryResult → List (List ContextValue)
  | .single items => [items]
  | .multi groups => groups

def isMulti : QueryResult → Bool
  | .single _ => false
  | .multi _ => true

end QueryResult

namespace Compose

inductive MergeMode
  | concat
  /-- The first items of all groups, then the second ones, and so on. -/
  | interleave
deriving DecidableEq

def MergeMode.read (written : String) : Outcome MergeMode :=
  let word := Text.trim written
  if word = "concat" then .ok .concat
  else if word = "interleave" then .ok .interleave
  else .error (.unknownMergeMode word)

/-- What makes two items the same. -/
inductive Dedupe
  | byId
  | byName
  | byHash
deriving DecidableEq

def Dedupe.read (written : String) : Outcome Dedupe :=
  let word := Text.trim written
  if word = "by:id" ∨ word = "id" then .ok .byId
  else if word = "by:name" ∨ word = "name" then .ok .byName
  else if word = "by:hash" ∨ word = "hash" then .ok .byHash
  else .error (.unknownDedupe word)

/-- The key of an item; an item without one repeats nothing. -/
def Dedupe.key? (d : Dedupe) (v : ContextValue) : Option String :=
  match d with
  | .byId => some ((v.elementId?.map ElementId.text).getD v.fingerprint)
  | .byName => v.elementName?
  | .byHash => some (Text.SipHash.digits (Text.SipHash.ofText v.fingerprint))

/-- The `i`-th items of the groups that have one. -/
def column (groups : List (List α)) (i : Nat) : List α := groups.filterMap fun g => g[i]?

def longest (groups : List (List α)) : Nat := (groups.map List.length).foldl Nat.max 0

/-- Joins groups into one list. -/
def mergeGroups (mode : MergeMode) (groups : List (List α)) : List α :=
  match mode with
  | .concat => groups.flatten
  | .interleave => (List.range (longest groups)).flatMap (column groups)

/-- Keeps the first item of each key that was not seen before, and gives all keys seen. -/
def dedupe (key? : α → Option String) (seen : List String) : List α → List α × List String
  | [] => ([], seen)
  | a :: rest =>
    match key? a with
    | none =>
      let (kept, seen) := dedupe key? seen rest
      (a :: kept, seen)
    | some k =>
      if seen.contains k then dedupe key? seen rest
      else
        let (kept, seen) := dedupe key? (k :: seen) rest
        (a :: kept, seen)

/-- Drops what was seen earlier in a group or in a group before it. -/
def dedupeGroups (key? : α → Option String) (seen : List String) : List (List α) → List (List α)
  | [] => []
  | g :: rest =>
    let (kept, seen) := dedupe key? seen g
    kept :: dedupeGroups key? seen rest

/-- What one entry makes: a list, or groups. -/
inductive Composed
  | flat (items : List ContextValue)
  | grouped (groups : List (List ContextValue))
deriving Inhabited

namespace Composed

def groups : Composed → List (List ContextValue)
  | .flat items => [items]
  | .grouped groups => groups

def toValue : Composed → ContextValue
  | .flat items => .list items
  | .grouped groups => .list (groups.map .list)

end Composed

def shuffled (source : RandomSource) (shuffle : Bool) (xs : List α) : List α :=
  if shuffle then ((Draw.shuffle xs).run { source }).1 else xs

def limited (limit : Option Nat) (xs : List α) : List α :=
  match limit with
  | some n => xs.take n
  | none => xs

/-- Shapes the groups of one entry with the random words of a source. -/
def one (source : RandomSource) (groups : List (List ContextValue)) (grouped : Bool)
    (spec : ComposeSpec) : Outcome Composed := do
  let mode ← spec.merge.mapM MergeMode.read
  let dedupeBy ← spec.dedupe.mapM Dedupe.read
  if !grouped || spec.flatten.getD true then
    let items := mergeGroups (mode.getD .concat) groups
    let items := match dedupeBy with
      | some d => (dedupe d.key? [] items).1
      | none => items
    return .flat (limited spec.limit (shuffled source spec.shuffle items))
  else
    let groups := match dedupeBy with
      | some d => dedupeGroups d.key? [] groups
      | none => groups
    return .grouped (limited spec.limit (shuffled source spec.shuffle groups))

/-- The variables made so far, and what they were made from, by query name and by variable name. -/
structure Progress where
  output : Context := []
  composed : Table Composed := []

/-- Adds what an entry made under its own name and under the name of its variable. -/
def Progress.add (p : Progress) (name : String) (spec : ComposeSpec) (made : Composed) : Progress :=
  let outName := spec.outName.getD name
  let composed := if outName = name then p.composed else p.composed.put outName made
  ⟨p.output.put outName made.toValue, composed.put name made⟩

/-- Shapes one entry and adds it. -/
def addEntry (p : Progress) (name : String) (groups : List (List ContextValue)) (grouped : Bool)
    (spec : ComposeSpec) : Press Progress := do
  let source ← if spec.shuffle then Press.randomSource spec.seed else pure (ChaCha.seeded 0)
  match one source groups grouped spec with
  | .ok made => return p.add name spec made
  | .error e => throw (.within ("could not compose `" ++ name ++ "`") e)

/-- The entry that shapes a query result; entries with sources do not. -/
def entryFor (specs : Table ComposeSpec) (name : String) : ComposeSpec :=
  match specs.valueAt? name with
  | some spec => if spec.sources.isNone then spec else {}
  | none => {}

/-- The groups of a source: those of an earlier entry or variable, else those of a raw result. -/
def sourceGroups? (p : Progress) (results : Table QueryResult) (source : String) :
    Option (List (List ContextValue)) :=
  match p.composed.valueAt? source with
  | some made => some made.groups
  | none => (results.valueAt? source).map QueryResult.groups

def unknownSource (name source : String) : Warning :=
  ⟨"skipping unknown compose source", [("compose", name), ("source", source)]⟩

/-- Joins the sources of an entry; unknown ones are passed over. -/
def addAggregate (results : Table QueryResult) (p : Progress) (name : String) (spec : ComposeSpec)
    (sources : List String) : Press Progress := do
  let found := sources.map fun s => (s, sourceGroups? p results s)
  Press.warnAll (found.filterMap fun e => if e.2.isNone then some (unknownSource name e.1) else none)
  addEntry p name ((found.filterMap Prod.snd).flatten) true spec

/-- The variables that query results make: first each result by its own entry, then the entries with
sources in their order. -/
def run (results : Table QueryResult) (specs : Table ComposeSpec) : Press Context := do
  let plain ← results.foldlM
    (fun p e => addEntry p e.1 e.2.groups e.2.isMulti (entryFor specs e.1)) ({} : Progress)
  let all ← specs.foldlM (fun p e =>
    match e.2.sources with
    | some sources => addAggregate results p e.1 e.2 sources
    | none => return p) plain
  return all.output

end Compose

end Bitpress
