import Bitpress.Config
import Bitpress.Document

/-!
The library: the files that registries are read from, with the configuration and
the home directory that references to them depend on. It does not change while
registries are loaded.
-/

namespace Bitpress

structure Library where
  files : FileTree
  config : Config := {}
  home : Option Location := none

namespace Library

/-- The names that are tried, in order, for a registry that is a directory. -/
def indexNames : List String := ["index.yml", "index.yaml", "index.md", "bits.yml"]

/-- The file of a registry: a directory stands for the first index file in it. -/
def locate (l : Library) (p : Location) : Outcome Location :=
  match l.files.canonical? p with
  | none => .error (.registryNotFound p.text)
  | some found =>
    if l.files.isDirectory found then
      match (indexNames.map fun name => found.join ⟨name⟩).find? l.files.isFile with
      | some index => .ok index
      | none => .error (.registryNotFound p.text)
    else .ok found

/-- A reference as it is meant in a file: `~/` leads home, all else starts at the file's directory. -/
def relativeTo (l : Library) (file : Location) (reference : String) : Location :=
  match Text.withoutStart? "~/" reference, l.home with
  | some rest, some home => home.join ⟨rest⟩
  | _, _ =>
    match file.parent? with
    | some dir => dir.join ⟨reference⟩
    | none => ⟨reference⟩

/-- The registry that a reference in a file leads to. -/
def locateFrom (l : Library) (file : Location) (reference : String) : Outcome Location :=
  l.locate (l.relativeTo file reference)

/-- The document of a registry file. -/
def document (l : Library) (p : Location) : Outcome RegistryDocument := do
  let format ← DocumentFormat.ofLocation p
  let text ← Outcome.ofFiles (l.files.readText p)
  Document.parse format p.text l.config.vars text

/-- The documents of all files that hold one. -/
def documents (l : Library) : List RegistryDocument :=
  (l.files.files []).filterMap fun e => (l.document (.ofRoute e.1)).toOption

/-- What all items of a list come to, where `count` says what one of them does. -/
def total {α : Type} (count : α → Nat) (items : List α) : Nat := items.foldr (fun item n => count item + n) 0

/-- How much there is in all files: what a load that meets nothing twice can meet at most. -/
structure Extent where
  files : Nat
  targets : Nat
  /-- Presets, the defaults of each bit counted as one. -/
  presets : Nat

def extent (l : Library) : Extent :=
  let documents := l.documents
  { files := (l.files.files []).length
    targets := total (fun d => d.targets.length) documents
    presets := total (fun d => total (fun b => b.presets.length + 1) d.bits) documents }

end Library

end Bitpress
