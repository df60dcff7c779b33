import Bitpress.Compose
import Bitpress.Preset
import Bitpress.Query
import Bitpress.Store

/-!
Resolution: running the queries of a registry while it is being built. A query
finds bits and constants in the registry itself or in another one. A bit that is
found is bound to variables: those of its preset, under those of the query.

The queries of a preset are resolved while the preset is on the trail. A preset
that is on the trail already closes a cycle.
-/

namespace Bitpress

/-- A build under way: the store, the registries that it has used so far, and the presets that it is
resolving, outermost first. -/
structure Building where
  store : Store
  dependencies : List Location := []
  trail : List PresetKey := []

/-- A step of a build. -/
abbrev Build (α : Type) := ExceptT Error (StateM Building) α

namespace Build

/-- Runs a step on the store. -/
def onStore (step : StoreM α) : Build α := do
  let b ← getThe Building
  let (r, store) := StateT.run (ExceptT.run step) b.store
  set { b with store }
  match r with
  | .ok a => return a
  | .error e => throw e

def press (step : Press α) : Build α := onStore (StoreM.press step)

def ofOutcome (r : Outcome α) : Build α :=
  match r with
  | .ok a => return a
  | .error e => throw e

/-- Puts a sentence around the error of a step. -/
def within (context : String) (step : Build α) : Build α :=
  tryCatch step fun e => throw (.within context e)

end Build

namespace Resolver

/-- Puts a preset on a trail; one that is there already closes a cycle. -/
def enter (trail : List PresetKey) (key : PresetKey) : Outcome (List PresetKey) :=
  match trail.findIdx? fun k => k.same key with
  | none => .ok (trail ++ [key])
  | some i =>
    let chain := trail.drop i ++ [key]
    .error (.reference (if key.preset.isNone then .defaultsCycle chain else .presetCycle chain))

/-- Runs a step with a preset on the trail, and takes the last preset off the trail again, whether the
step fails or not. -/
def visiting (key : PresetKey) (step : Build α) : Build α :=
  ExceptT.mk fun b =>
    match enter b.trail key with
    | .error e => return (.error e, b)
    | .ok trail => do
      let (r, after) ← step.run.run { b with trail }
      return (r, { after with trail := after.trail.dropLast })

end Resolver

/-- What a build resolves queries against. -/
structure Resolver where
  library : Library
  /-- The registry being built. -/
  path : Location
  bits : Collection Bit
  constants : Collection Constant
  /-- How many presets there are in all files. -/
  presets : Nat
  /-- Has another registry loaded, and gives what it holds. -/
  depend : Location → Build Contents

namespace Resolver

/-- The contents of the registry that a query names; none for the registry being built. -/
def contentsFor (r : Resolver) (reference : Option String) : Build (Option Contents) := do
  match reference with
  | none => return none
  | some reference =>
    let p ← Build.ofOutcome (r.library.locateFrom r.path reference)
    if p = r.path then return none
    return some (← r.depend p)

/-- The constants that a query finds. -/
def constantsOf (r : Resolver) (q : QuerySpec) : Build (List Constant) := do
  let contents ← r.contentsFor q.registry
  Build.press (Query.matching ((contents.map Contents.constants).getD r.constants) q)

/-- The variables of a map, whose older query keys are run by `run`. -/
def variablesOf (run : Table Tree → Table Tree → Build Context) (t : Table Tree) :
    Build Context := do
  let lifted := Legacy.lift t []
  let static := Context.ofTable lifted.context
  if lifted.queries.isEmpty then return static
  return static.merge (← run lifted.queries [])

/-- The bits that a query finds, bound to variables: those of the preset, under those of the query,
under those of its `with` clause and what the queries of that clause find. -/
def blocksOf (r : Resolver) (overlay : Bit → Option PresetSelector → Build Context)
    (run : Table Tree → Table Tree → Build Context) (q : QuerySpec) : Build (List Block) := do
  let contents ← r.contentsFor q.registry
  let found ← Build.press (Query.matching ((contents.map Contents.bits).getD r.bits) q)
  if found.isEmpty then return []
  let ofQuery ← variablesOf run q.context
  let (ofClause, ofClauseQueries) ← match q.with with
    | some w => do
      let context ← variablesOf run w.context
      pure (context, ← run w.queries [])
    | none => pure ([], [])
  found.mapM fun b => do
    let ofPreset ← overlay b q.preset
    return ⟨b, ((Context.merge ofPreset ofQuery).merge ofClause).merge ofClauseQueries, q.metadata⟩

/-- What the queries of one name find. -/
def resultOf (r : Resolver) (overlay : Bit → Option PresetSelector → Build Context)
    (run : Table Tree → Table Tree → Build Context) (name : String) (t : Tree) :
    Build QueryResult := do
  let entry ← Build.ofOutcome (QueryEntry.read name t)
  let groups ← entry.specs.mapM fun q => do
    match QueryKind.forQuery name q.kind with
    | .bits => return (← r.blocksOf overlay run q).map Block.toValue
    | .constants => return (← r.constantsOf q).map ContextValue.constant
  return if entry.isGrouped then .multi groups else .single (groups.head?.getD [])

/-- Runs queries and composes what they find; queries inside of queries are nested less than `depth`
deep. -/
def runNested (r : Resolver) (overlay : Bit → Option PresetSelector → Build Context)
    (depth : Nat) (queries compose : Table Tree) : Build Context :=
  match depth with
  | 0 => throw .depthExceeded
  | depth + 1 => do
    let results ← queries.foldlM (fun (results : Table QueryResult) e => do
      let result ← Build.within ("could not resolve query \u0060" ++ e.1 ++ "\u0060")
        (r.resultOf overlay (r.runNested overlay depth) e.1 e.2)
      return results.put e.1 result) []
    if results.isEmpty && compose.isEmpty then return []
    Build.press (Compose.run results (← Build.ofOutcome (ComposeSpec.readTable compose)))

/-- Runs queries and composes what they find. -/
def run (r : Resolver) (overlay : Bit → Option PresetSelector → Build Context)
    (queries compose : Table Tree) : Build Context :=
  r.runNested overlay (Tree.depth (.map queries) + 1) queries compose

/-- The part of a preset's tree with a name. -/
def partOf (t : Tree) (part : String) : Table Tree := ((t.valueAt? part).bind Tree.table?).getD []

/-- The name of a declared preset in messages: its place stands in for a missing name. -/
def presetLabel (place : Nat) (p : PresetDecl) : String :=
  p.displayName?.getD ("#" ++ toString (place + 1))

/-- Resolves the defaults of a bit. -/
def ofDefaults (r : Resolver) (overlay : Bit → Option PresetSelector → Build Context) (b : Bit) :
    Build Context := do
  let found ← r.run overlay b.defaults.queries b.defaults.compose
  return (Context.ofTable b.defaults.context).merge found

/-- Resolves a declared preset of a bit. -/
def ofPreset (r : Resolver) (overlay : Bit → Option PresetSelector → Build Context) (b : Bit)
    (p : PresetDecl) : Build Context := do
  let tree ← Build.ofOutcome (p.tree b)
  let context ← variablesOf (r.run overlay) (partOf tree "context")
  return context.merge (← r.run overlay (partOf tree "queries") (partOf tree "compose"))

/-- A chosen preset as it is named on a trail. -/
def keyOf (b : Bit) : PresetChoice → PresetKey
  | .defaults => ⟨b.info.id, none, b.label⟩
  | .declared place p => ⟨b.info.id, some place, b.label ++ "[" ++ presetLabel place p ++ "]"⟩

/-- Resolves a chosen preset while it is on the trail. Defaults are resolved once and kept. `overlay`
gives the variables of the presets that its queries select. -/
def resolve (r : Resolver) (overlay : Bit → Option PresetSelector → Build Context) (b : Bit)
    (choice : PresetChoice) : Build Context :=
  match choice with
  | .defaults => do
    match (← getThe Building).store.defaults? b.info.id with
    | some known => return known
    | none =>
      let context ← Build.within ("could not resolve defaults of bit \u0060" ++ b.label ++ "\u0060")
        (visiting (keyOf b .defaults) (r.ofDefaults overlay b))
      modifyThe Building fun s => { s with store := s.store.putDefaults b.info.id context }
      return context
  | .declared place p =>
    Build.within
      ("could not resolve preset \u0060" ++ presetLabel place p ++ "\u0060 of bit \u0060" ++ b.label ++ "\u0060")
      (visiting (keyOf b (.declared place p)) (r.ofPreset overlay b p))

/-- Picks a preset of a bit by a selector, and resolves it. -/
def overlayBy (resolve : Bit → PresetChoice → Build Context) (b : Bit)
    (selector : Option PresetSelector) : Build Context := do
  resolve b (← Build.press (Preset.chosen b selector))

/-- The variables of a chosen preset. `room` is how many more presets the trail can take. -/
def ofChoice (r : Resolver) (room : Nat) : Bit → PresetChoice → Build Context :=
  match room with
  | 0 => fun _ _ => throw .depthExceeded
  | room + 1 => r.resolve (overlayBy (r.ofChoice room))

/-- The variables of the preset that a selector picks. -/
def overlay (r : Resolver) : Bit → Option PresetSelector → Build Context :=
  overlayBy (r.ofChoice (r.presets + 1))

end Resolver

end Bitpress
