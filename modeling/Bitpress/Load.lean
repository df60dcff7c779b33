import Bitpress.Inheritance
import Bitpress.Resolution

/-!
Loading registries. A load reads the file, makes its bits and constants, loads
the registries that it imports and takes over their elements, resolves the
defaults of its bits, and resolves its targets. It produces all of this or
nothing.

Every request starts a new generation, in which each registry is built at most
once. The registries being loaded are on a trail; an import of one of them closes
a cycle.
-/

namespace Bitpress

namespace Load

/-- Refuses a registry that is being loaded already. -/
def checkCycle (trail : List Location) (p : Location) : Outcome Unit :=
  match trail.findIdx? (· == p) with
  | some i => .error (.reference (.importCycle (trail.drop i ++ [p])))
  | none => .ok ()

/-- Loads another registry, once in a build. -/
def loadOnce (fetch : Location → StoreM Unit) (trail : List Location) (p : Location) : Build Unit := do
  unless (← getThe Building).dependencies.contains p do
    Build.ofOutcome (checkCycle trail p)
    Build.onStore (fetch p)
    modifyThe Building fun b => { b with dependencies := b.dependencies ++ [p] }

/-- Has another registry loaded, and gives what it holds. -/
def depend (fetch : Location → StoreM Unit) (trail : List Location) (p : Location) : Build Contents := do
  loadOnce fetch trail p
  return ((← getThe Building).store.registry p).contents

def duplicateImport (file : Location) (reference : String) : Warning :=
  ⟨"skipping duplicate import", [("registry", file.text), ("import", reference)]⟩

/-- Loads an import and gives what it holds; one that is there already is passed over. -/
def importContents (l : Library) (fetch : Location → StoreM Unit) (trail : List Location)
    (file : Location) (d : ImportDecl) : Build (Option Contents) := do
  let p ← Build.ofOutcome (l.locateFrom file d.registry)
  if (← getThe Building).dependencies.contains p then
    Build.press (Press.warn (duplicateImport file d.registry))
    return none
  return some (← depend fetch trail p)

/-- Targets as inheritance sees them from the registry being built: its own document, and those of
the registries that it depends on. -/
def targetSource (r : Resolver) (d : RegistryDocument) : TargetSource (StateM Building) where
  declaration file name := do
    if file = r.path then return d.target? name
    return (← r.depend file).declaredTarget? name
  locate file reference := Build.ofOutcome (r.library.locateFrom file reference)
  warn ws := modify fun b =>
    { b with store := { b.store with session :=
      { b.store.session with warnings := b.store.session.warnings ++ ws } } }

/-- The spec of a declared target, with the bases resolved so far. -/
def specOf (r : Resolver) (targets : Nat) (d : RegistryDocument) (memo : Inheritance.Memo)
    (decl : TargetDecl) : Build (TargetSpec × Inheritance.Memo) :=
  ExceptT.mk do
    let (result, memo) ← (Inheritance.resolve (targetSource r d) (targets + 1) r.path decl).run.run memo
    return result.map fun spec => (spec, memo)

/-- A place given in a registry file, else the configured one. -/
def placeOf (directory : Location) (written : Option String) (standard : Option Location) :
    Option Location :=
  match written with
  | some p => some (directory.join ⟨p⟩)
  | none => standard

/-- The target that a spec describes. -/
def targetOf (r : Resolver) (d : RegistryDocument) (decl : TargetDecl) (spec : TargetSpec) :
    Build Target := do
  let label := decl.name.getD "target"
  let static ← Resolver.variablesOf (r.run r.overlay) spec.context
  let context := static.merge (← r.run r.overlay spec.queries spec.compose)
  let directory := r.path.parent?.getD ⟨""⟩
  let standard := r.library.config.defaults
  let some template := placeOf directory spec.template standard.template
    | throw (.missingTemplate label)
  let dest ← Build.ofOutcome
    (Target.destination ((placeOf directory spec.dest standard.dest).getD directory) r.path label)
  let info ← Build.press (ElementInfo.create decl.name (decl.tags ++ d.tags) [])
  return ⟨info, template, context, dest⟩

/-- Resolves the declared targets in order. -/
def targetsOf (r : Resolver) (targets : Nat) (d : RegistryDocument) : Build (Collection Target) := do
  let (made, _) ← d.targets.foldlM
    (fun ((made, memo) : Collection Target × Inheritance.Memo) decl => do
      let context := "could not resolve target \u0060" ++ decl.name.getD "<unnamed>" ++ "\u0060"
      let (target, memo) ← Build.within context do
        let (spec, memo) ← specOf r targets d memo decl
        return (← targetOf r d decl spec, memo)
      return (← Build.ofOutcome (made.push target), memo)) (.empty, [])
  return made

/-- The targets that a mode asks for. -/
def targetsFor (r : Resolver) (targets : Nat) (mode : LoadMode) (d : RegistryDocument) :
    Build (Collection Target) :=
  match mode with
  | .full => targetsOf r targets d
  | .dependency => return .empty

/-- The elements of declarations, made one after the other. -/
def elementsOf [Element α] (make : δ → Press α) (decls : List δ) : Build (Collection α) :=
  decls.foldlM (fun c decl => do Build.ofOutcome (c.push (← Build.press (make decl)))) .empty

/-- Builds a registry. The trail ends with it. -/
def build (l : Library) (extent : Library.Extent) (fetch : Location → StoreM Unit) (mode : LoadMode)
    (trail : List Location) (p : Location) : Build Contents := do
  let d ← Build.ofOutcome (l.document p)
  let ownBits ← elementsOf (Bit.ofDecl · d.tags) d.bits
  let ownConstants ← elementsOf (Constant.ofDecl · d.tags) d.constants
  let imported := (← d.imports.mapM (importContents l fetch trail p)).filterMap id
  let bits := imported.foldl (fun c i => c.absorb i.bits.items) ownBits
  let constants := imported.foldl (fun c i => c.absorb i.constants.items) ownConstants
  let r : Resolver := ⟨l, p, bits, constants, extent.presets, depend fetch trail⟩
  let _ ← ownBits.items.mapM fun b => r.ofChoice (extent.presets + 1) b .defaults
  let ownTargets ← targetsFor r extent.targets mode d
  let targets := imported.foldl (fun c i => c.absorb i.targets.items) ownTargets
  return ⟨d, bits, constants, targets, (← getThe Building).dependencies⟩

/-- Runs a build on the store. -/
def ofBuild (step : Build α) : StoreM α := do
  let s ← getThe Store
  let (r, b) := StateT.run (ExceptT.run step) { store := s }
  set b.store
  match r with
  | .ok a => return a
  | .error e => throw e

/-- Has a registry loaded unless the generation has it already. -/
def unlessCurrent (generation : Nat) (load : Location → StoreM Unit) (p : Location) : StoreM Unit := do
  unless ((← getThe Store).registry p).isCurrent generation do
    load p

/-- Loads a registry. `next` loads the registries that it needs, with those being loaded on a trail. -/
def loadWith (l : Library) (extent : Library.Extent) (next : List Location → Location → StoreM Unit)
    (mode : LoadMode) (trail : List Location) (p : Location) : StoreM Unit := do
  let generation := (← getThe Store).generation
  let before := (← getThe Store).registry p
  let mode := before.modeFor mode
  modifyThe Store fun s => (s.put { before with status := .loading }).say (.loading p mode)
  let fetch := unlessCurrent generation (next (trail ++ [p]))
  let contents ← tryCatch (ofBuild (build l extent fetch mode (trail ++ [p]) p)) fun e => do
    modifyThe Store fun s => (s.put { before with status := .failed }).say (.failed p)
    throw (.registryLoad p e)
  modifyThe Store fun s =>
    s.put { path := p, status := .loaded, generation, mode := some mode, contents }

/-- Loads a registry. `room` is how many more registries the trail can take. -/
def load (l : Library) (extent : Library.Extent) (room : Nat) (mode : LoadMode) (trail : List Location)
    (p : Location) : StoreM Unit :=
  match room with
  | 0 => throw .depthExceeded
  | room + 1 => loadWith l extent (load l extent room .dependency) mode trail p

theorem load_zero (l : Library) (extent : Library.Extent) (mode : LoadMode) (trail : List Location)
    (p : Location) : load l extent 0 mode trail p = throw .depthExceeded := rfl

theorem load_succ (l : Library) (extent : Library.Extent) (room : Nat) (mode : LoadMode)
    (trail : List Location) (p : Location) :
    load l extent (room + 1) mode trail p = loadWith l extent (load l extent room .dependency) mode trail p :=
  rfl

attribute [irreducible] load

end Load

namespace Store

/-- Loads the registry of a file anew, with its targets, in a new generation. -/
def reload (l : Library) (p : Location) : StoreM Unit := do
  let extent := l.extent
  modifyThe Store fun s => { s with generation := s.generation + 1 }
  Load.load l extent (extent.files + 1) .full [] p

/-- The registry at a location, loaded anew. -/
def get (l : Library) (p : Location) : StoreM Registry := do
  let found ← match l.locate p with
    | .ok found => pure found
    | .error e => throw e
  reload l found
  return (← getThe Store).registry found

end Store

end Bitpress
