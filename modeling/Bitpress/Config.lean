import Bitpress.Files
import Bitpress.Ini
import Bitpress.Toml.Reader
import Bitpress.Tree.Interpolate
import Bitpress.Tree.Merge

/-!
The configuration of a project: built-in values, under an older INI file, under
the first TOML file that is there, under the environment.
-/

namespace Bitpress

/-- Which by-products of the compiler are kept. -/
inductive KeepIntermediates
  | none
  | errors
  | all
deriving DecidableEq, Inhabited

namespace KeepIntermediates

def names : List String := ["none", "errors", "all"]

def name : KeepIntermediates → String
  | .none => "none"
  | .errors => "errors"
  | .all => "all"

def ofName (s : String) : Decoded KeepIntermediates :=
  match s with
  | "none" => .ok .none
  | "errors" => .ok .errors
  | "all" => .ok .all
  | _ => .error (.unknownVariant s names)

def decode (t : Tree) : Decoded KeepIntermediates := Decode.choice ofName t

end KeepIntermediates

/-- What stands in for a missing template or destination of a target. -/
structure TargetDefaults where
  template : Option Location := none
  dest : Option Location := none
deriving DecidableEq, Inhabited

/-- What a compilation makes and keeps. -/
structure OutputOptions where
  pdf : Bool := true
  tex : Bool := false
  buildDir : Option Location := none
  intermediatesDir : Option Location := none
  keep : KeepIntermediates := .none
deriving DecidableEq, Inhabited

/-- The program that makes documents. -/
structure Engine where
  command : String := "pdflatex"
  args : List String := ["-interaction=nonstopmode"]
deriving DecidableEq, Inhabited

structure Config where
  defaults : TargetDefaults := {}
  vars : Variables := []
  output : OutputOptions := {}
  engine : Engine := {}
deriving Inhabited

/-- A path given as text. -/
def Location.decode : Tree → Decoded Location
  | .str s => .ok ⟨s⟩
  | t => Decode.mismatch t "path string"

namespace TargetDefaults

def field (d : TargetDefaults) (key : String) (t : Tree) : Decoded TargetDefaults :=
  match key with
  | "template" => do return { d with template := ← Decode.optional Location.decode t }
  | "dest" => do return { d with dest := ← Decode.optional Location.decode t }
  | _ => .ok d

def decode (t : Tree) : Decoded TargetDefaults :=
  Decode.fieldsOrItems "DefaultsConfig" ["template", "dest"] 0 field {} t

def pathTree (p : Location) : Tree := .str p.text

def encode (d : TargetDefaults) : Tree :=
  .map (Encode.optional "template" pathTree d.template ++ Encode.optional "dest" pathTree d.dest)

end TargetDefaults

namespace OutputOptions

def field (o : OutputOptions) (key : String) (t : Tree) : Decoded OutputOptions :=
  match key with
  | "pdf" => do return { o with pdf := ← Decode.boolean t }
  | "tex" => do return { o with tex := ← Decode.boolean t }
  | "build_dir" => do return { o with buildDir := ← Decode.optional Location.decode t }
  | "intermediates_dir" => do return { o with intermediatesDir := ← Decode.optional Location.decode t }
  | "keep_intermediates" => do return { o with keep := ← KeepIntermediates.decode t }
  | _ => .ok o

def decode (t : Tree) : Decoded OutputOptions :=
  Decode.fieldsOrItems "OutputConfig"
    ["pdf", "tex", "build_dir", "intermediates_dir", "keep_intermediates"] 0 field {} t

def encode (o : OutputOptions) : Tree :=
  .map ([("pdf", .bool o.pdf), ("tex", .bool o.tex)] ++
    Encode.optional "build_dir" TargetDefaults.pathTree o.buildDir ++
    Encode.optional "intermediates_dir" TargetDefaults.pathTree o.intermediatesDir ++
    [("keep_intermediates", .str o.keep.name)])

end OutputOptions

namespace Engine

def field (e : Engine) (key : String) (t : Tree) : Decoded Engine :=
  match key with
  | "command" => do return { e with command := ← Decode.string t }
  | "args" => do return { e with args := ← Decode.strings t }
  | _ => .ok e

def decode (t : Tree) : Decoded Engine :=
  Decode.fieldsOrItems "LatexConfig" ["command", "args"] 0 field {} t

def encode (e : Engine) : Tree :=
  .map [("command", .str e.command), ("args", .ofStrings e.args)]

end Engine

namespace Config

def field (c : Config) (key : String) (t : Tree) : Decoded Config :=
  match key with
  | "defaults" => do return { c with defaults := ← TargetDefaults.decode t }
  | "variables" => do return { c with vars := ← Decode.tableOf Decode.string t }
  | "output" => do return { c with output := ← OutputOptions.decode t }
  | "latex" => do return { c with engine := ← Engine.decode t }
  | _ => .ok c

def decode (t : Tree) : Decoded Config :=
  Decode.fieldsOrItems "BitsConfig" ["defaults", "variables", "output", "latex"] 0 field {} t

def encode (c : Config) : Tree :=
  .map [("defaults", c.defaults.encode), ("variables", .map (c.vars.mapValues .str)),
    ("output", c.output.encode), ("latex", c.engine.encode)]

/-! ### Layers -/

/-- Reads a TOML layer. Numbers that are no data are reported like those of a registry. -/
def readToml (text : String) : Outcome Tree :=
  match Toml.read text with
  | .ok t => .ok t
  | .error (.notANumber s) => .error (.registryParse "bits.toml" (.notANumber s))
  | .error fault => .error (.configParse fault)

/-- A word for a truth value becomes one. -/
def iniValue (t : Tree) : Tree :=
  match t.str?.map Text.trim with
  | some word =>
    if ["true", "yes", "on"].contains word then .bool true
    else if ["false", "no", "off"].contains word then .bool false
    else t
  | none => t

def iniSectionName (name : String) : String :=
  if name = "DEFAULT" ∨ name = "default" then "defaults"
  else String.ofList (name.toList.map Char.toLower)

/-- Adds a section of the older file to a layer; entries outside of sections are passed over. -/
def addSection (layer : Table Tree) (e : String × Tree) : Table Tree :=
  match e.2 with
  | .map entries => layer.put (iniSectionName e.1) (.map (Table.mapValues iniValue entries))
  | _ => layer

/-- Reads the older layer. -/
def readIni (text : String) : Outcome Tree := do
  let sections ← (Ini.read text).mapError .configParse
  return .map (sections.entries.foldl addSection [])

def ofTree (t : Tree) : Outcome Config := (decode t).mapError fun f => .configParse (.decode f)

/-- The configuration of a single TOML text. -/
def ofToml (text : String) : Outcome Config := do ofTree (← readToml text)

/-- Lays the variables of the environment over a configuration; blank ones do not count. -/
def applyEnv (c : Config) (env : Table String) : Config :=
  let given (key : String) : Option String := (env.valueAt? key).filter fun s => !Text.blankText s
  let place (key : String) (old : Option Location) : Option Location := (given key).map Location.mk <|> old
  { c with
    defaults := ⟨place "BITS_TEMPLATE" c.defaults.template, place "BITS_DEST" c.defaults.dest⟩
    output := { c.output with buildDir := place "BITS_BUILD_DIR" c.output.buildDir }
    engine := { c.engine with command := (given "BITS_LATEX").getD c.engine.command } }

/-! ### Files -/

def fileNames : List String := ["bits.toml", ".bits.toml", ".config/bits.toml"]

def legacyFileName : String := ".bitsrc"

/-- The TOML file of a project: the first that is there. -/
def file? (files : FileTree) (root : Location) : Option Location :=
  (fileNames.map fun name => root.join ⟨name⟩).find? files.isFile

/-- Reads a file and lays it over a layer. -/
def layOver (files : FileTree) (read : String → Outcome Tree) (layer : Tree) (p : Location) :
    Outcome Tree := do
  return layer.merge .replace (← read (← Outcome.ofFiles (files.readText p)))

/-- The configuration of the project in a directory. -/
def load (files : FileTree) (root : Location) (env : Table String) : Outcome Config := do
  let legacy := root.join ⟨legacyFileName⟩
  let layer ← if files.isFile legacy then layOver files readIni (.map []) legacy else pure (.map [])
  let layer ← match file? files root with
    | some p => layOver files readToml layer p
    | none => pure layer
  return (← ofTree layer).applyEnv env

end Config

end Bitpress
