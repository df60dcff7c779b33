import Bitpress.Compiler
import Bitpress.Load
import Bitpress.Rendition
import Bitpress.Request
import Bitpress.WatchSet

/-!
Carrying out a request. A report says what was printed, how the program ended, and
what the files are afterwards. Paths are shown as seen from the project's directory.
-/

namespace Bitpress

/-- Where the program runs. -/
structure Surroundings where
  files : FileTree
  /-- The working directory, from which relative paths lead on. -/
  directory : Location
  environment : Table String := []
  programs : Programs
  /-- The texts compiled by earlier requests. -/
  compiled : List (Location × String) := []

structure Report where
  code : Nat := 0
  output : List String := []
  errors : List String := []
  files : FileTree
  compiled : List (Location × String) := []

/-- What ends a request. -/
inductive Failure
  | error (e : Error)
  /-- What was asked for makes no sense. -/
  | pointless (reason : String)

namespace Failure

/-- The lines that report a failure; those of an error begin with its code. -/
def lines : Failure → List String
  | error e => e.code :: (e :: e.causes).map (fun c => "  " ++ c.message) ++
      (e.help?.map fun h => "  help: " ++ h).toList
  | pointless reason => ["error: " ++ reason]

end Failure

/-- What a request has done so far. -/
structure Progress where
  files : FileTree
  store : Store := {}
  output : List String := []
  compiled : List (Location × String) := []
deriving Inhabited

abbrev Task (α : Type) := ExceptT Failure (StateM Progress) α

namespace Task

def print (line : String) : Task Unit := modifyThe Progress fun s => { s with output := s.output ++ [line] }

def ofOutcome (r : Outcome α) : Task α :=
  match r with
  | .ok a => return a
  | .error e => throw (.error e)

def onStore (step : StoreM α) : Task α := do
  let s ← getThe Progress
  let (r, store) := StateT.run (ExceptT.run step) s.store
  set { s with store }
  ofOutcome r

def onFiles (change : FileTree → Except FileFault FileTree) : Task Unit := do
  let s ← getThe Progress
  set { s with files := ← ofOutcome (Outcome.ofFiles (change s.files)) }

def onWorkshop (step : WorkshopM α) : Task α := do
  let s ← getThe Progress
  let (r, w) := StateT.run (ExceptT.run step) ⟨s.files, s.compiled⟩
  set { s with files := w.files, compiled := w.compiled }
  ofOutcome r

end Task

namespace Surroundings

/-- A path as it is meant in the working directory. -/
def locate (s : Surroundings) (p : Location) : Location := s.directory.join p

/-- A path of the configuration as it is meant in the project's directory. -/
def anchored (root : Location) (p : Option Location) : Option Location := p.map root.join

/-- The configuration of a project. Relative paths in it start at the project's directory. -/
def config (s : Surroundings) (root : Location) : Outcome Config := do
  let c ← Config.load s.files (s.locate root) s.environment
  return { c with
    defaults := ⟨anchored root c.defaults.template, anchored root c.defaults.dest⟩
    output := { c.output with
      buildDir := anchored root c.output.buildDir
      intermediatesDir := anchored root c.output.intermediatesDir } }

def library (s : Surroundings) (c : Config) : Library :=
  ⟨s.files, c, (s.environment.valueAt? "HOME").map Location.mk⟩

/-! ### Building -/

/-- What a build makes, in terms of locations that do not depend on the working directory. -/
def buildOptions (s : Surroundings) (c : Config) (tex noPdf : Bool) (buildDir : Option Location) : OutputOptions :=
  { c.output with
    tex := c.output.tex || tex
    pdf := c.output.pdf && !noPdf
    buildDir := (buildDir <|> c.output.buildDir).map s.locate
    intermediatesDir := c.output.intermediatesDir.map s.locate }

/-- Renders and compiles a target. -/
def make (s : Surroundings) (c : Compiler) (o : OutputOptions) (t : Target) : Task Artifact := do
  let now ← getThe Progress
  let text ← Task.ofOutcome (({ t with template := s.locate t.template } : Target).text now.files now.store.renderer)
  Task.onWorkshop (c.compile text (s.locate t.dest) o)

/-- The lines about what was made for a target. -/
def artifactLines (root : Location) (verbose : Bool) (t : Target) (a : Artifact) : List String :=
  let shown (p : Location) : String := (p.seenFrom root).text
  (if a.tex.isSome then ["  wrote " ++ shown (t.dest.withExtension "tex")] else []) ++
    if a.pdf.isNone then []
    else if a.skipped then (if verbose then ["  unchanged " ++ shown t.dest] else [])
    else ["  compiled " ++ shown t.dest]

def build (s : Surroundings) (root : Location) (verbose : Bool) (path : Location) (tex noPdf : Bool)
    (buildDir : Option Location) : Task Unit := do
  let c ← Task.ofOutcome (s.config root)
  let registry ← Task.onStore (Store.get (s.library c) (s.locate path))
  let compiler : Compiler := ⟨c.engine, s.programs, s.environment⟩
  let targets := registry.contents.targets.items
  let artifacts ← targets.mapM (s.make compiler (s.buildOptions c tex noPdf buildDir))
  if targets = [] then Task.print ("No targets found in " ++ (registry.path.seenFrom root).text ++ ".")
  else
    for (t, a) in targets.zip artifacts do
      (artifactLines root verbose t a).forM Task.print
    let built := (artifacts.filter fun a => !a.skipped).length
    Task.print (s!"Built {built} of {artifacts.length} target(s).")

/-- The files that a build of a registry reads: registries and templates. -/
def watchSet (s : Surroundings) (root path : Location) : WatchSet :=
  match s.config root with
  | .error _ => {}
  | .ok c =>
    let l := s.library c
    let p := s.locate path
    let (_, store) := StateT.run (ExceptT.run (Store.get l p)) ({} : Store)
    let templates := match store.cached? l p with
      | some r => r.contents.targets.items.map fun t => s.locate t.template
      | none => []
    .ofList s.files (store.watchPaths l p ++ templates)

/-! ### Listing -/

def commas (words : List String) : String := String.intercalate ", " words

def bitLines (verbose : Bool) (b : Bit) : List String :=
  let names := b.fragmentNames
  let fragments := if names.length > 1 then " (" ++ commas names ++ ")" else ""
  let presets := b.presets.zipIdx.map fun (p, i) => p.displayName?.getD ("#" ++ toString (i + 1))
  ("  " ++ b.label ++ fragments ++ " [" ++ commas b.info.tags ++ "]") ::
    if verbose && !presets.isEmpty then ["    presets: " ++ commas presets] else []

def targetLines (root : Location) (verbose : Bool) (t : Target) : List String :=
  ("  " ++ Element.label t ++ " -> " ++ (t.dest.seenFrom root).text) ::
    if verbose then ["    template: " ++ (t.template.seenFrom root).text] else []

/-- The lines of a part of a listing, under its title; an empty part is left out. -/
def part (title : String) (lines : List String) : List String := if lines = [] then [] else title :: lines

def listing (root : Location) (verbose : Bool) (c : Contents) : List String :=
  let bits := c.bits.items
  let constants := c.constants.items
  let targets := c.targets.items
  if bits.isEmpty && constants.isEmpty && targets.isEmpty then ["No bits, constants or targets found."]
  else
    part "Bits:" (bits.flatMap (bitLines verbose)) ++
      part "Constants:" (constants.map fun k => "  " ++ Element.label k ++ " " ++ k.text) ++
      part "Targets:" (targets.flatMap (targetLines root verbose)) ++
      ["", s!"{bits.length} bit(s), {constants.length} constant(s), {targets.length} target(s)"]

def list (s : Surroundings) (root : Location) (verbose : Bool) (path : Location) : Task Unit := do
  let c ← Task.ofOutcome (s.config root)
  let registry ← Task.onStore (Store.get (s.library c) (s.locate path))
  (listing root verbose registry.contents).forM Task.print

/-! ### Converting -/

/-- Where a converted registry goes. -/
def outputOf (source : Location) (out : Option Location) (extension : Option String) : Task Location :=
  match out, extension with
  | some out, _ => return out
  | none, some extension => return source.withExtension extension
  | none, none => throw (.pointless "pass either \u0060--out <file>\u0060 or \u0060--fmt <format>\u0060")

def convert (s : Surroundings) (source : Location) (out : Option Location) (extension : Option String) :
    Task Unit := do
  let out ← outputOf source out extension
  if out.same source then
    throw (.pointless ("refusing to overwrite \u0060" ++ source.text ++ "\u0060 with itself"))
  let library : Library := { files := (← getThe Progress).files }
  let d ← Task.ofOutcome (library.document (s.locate source))
  let format ← Task.ofOutcome (DocumentFormat.ofLocation out)
  let text ← Task.ofOutcome (Document.print format d)
  Task.onFiles fun t => t.makeParent (s.locate out)
  Task.onFiles fun t => t.write (s.locate out) (.text text)
  Task.print ("Wrote " ++ out.text)

/-! ### Requests -/

def carryOut (s : Surroundings) (r : Request) (a : Action) : Task Unit :=
  let root := r.root.getD s.directory
  match a with
  | .build path tex noPdf _ buildDir => s.build root r.verbose path tex noPdf buildDir
  | .list path => s.list root r.verbose path
  | .convert source out extension => s.convert source out extension

/-- Carries out a task and reports on it. -/
def report (s : Surroundings) (task : Task Unit) : Report :=
  let (r, p) := StateT.run (ExceptT.run task) { files := s.files, compiled := s.compiled }
  let warnings := p.store.session.warnings.map fun w =>
    " WARN " ++ w.message ++ String.join (w.fields.map fun f => " " ++ f.1 ++ "=" ++ f.2)
  match r with
  | .ok () => { output := p.output, errors := warnings, files := p.files, compiled := p.compiled }
  | .error f =>
    { code := 2, output := p.output, errors := warnings ++ f.lines, files := p.files, compiled := p.compiled }

/-- Reads the arguments of the program and does what they ask for. -/
def run (s : Surroundings) (arguments : List String) : Report :=
  match Request.ofArguments arguments with
  | .error (.shown text) => { output := (Text.split '\n' text).dropLast, files := s.files }
  | .error (.mistaken m) => { code := 2, errors := ["error: " ++ m.message], files := s.files }
  | .ok r =>
    match r.action with
    | some a => s.report (s.carryOut r a)
    | none => { code := 1, errors := ["No subcommand specified. Run \u0060bits --help\u0060 for usage."], files := s.files }

end Surroundings

end Bitpress
