import Bitpress.Decode
import Bitpress.ElementId
import Bitpress.Location
import Bitpress.Template.Fault

/-!
What can go wrong, as causes. `message` words an error, `code` names its kind and
`help` says what to do about it. Errors of a load wrap the error that stopped it;
`cause?` unwraps one layer.
-/

namespace Bitpress

/-- Failures of the file system. -/
inductive FileFault
  | notFound
  | alreadyExists
  | notADirectory
  | isADirectory
  | directoryNotEmpty
  | invalidData
  | invalidInput
  | permissionDenied
  | other
deriving DecidableEq

def FileFault.name : FileFault → String
  | notFound => "NotFound"
  | alreadyExists => "AlreadyExists"
  | notADirectory => "NotADirectory"
  | isADirectory => "IsADirectory"
  | directoryNotEmpty => "DirectoryNotEmpty"
  | invalidData => "InvalidData"
  | invalidInput => "InvalidInput"
  | permissionDenied => "PermissionDenied"
  | other => "Other"

/-- A declared target: the file that declares it and its name there. -/
structure TargetKey where
  file : Location
  name : String
deriving DecidableEq, Inhabited

namespace TargetKey

/-- Whether two keys name the same target. -/
def same (a b : TargetKey) : Bool := a.file.same b.file && a.name == b.name

def text (k : TargetKey) : String := (k.file.fileName?.getD k.file.text) ++ "::" ++ k.name

end TargetKey

/-- A preset of a bit, by its place among those declared; without a place, the bit's defaults. -/
structure PresetKey where
  bit : ElementId
  preset : Option Nat
  label : String
deriving DecidableEq

/-- Whether two keys name the same preset of the same bit. -/
def PresetKey.same (a b : PresetKey) : Bool := a.bit == b.bit && a.preset == b.preset

/-- References that cannot be followed, or that lead back to where they started. -/
inductive ReferenceFault
  | missingBase (target base : String) (file : Location)
  | targetCycle (chain : List TargetKey)
  | importCycle (chain : List Location)
  | defaultsCycle (chain : List PresetKey)
  | presetCycle (chain : List PresetKey)
deriving DecidableEq

def arrows (steps : List String) : String := String.intercalate " -> " steps

namespace ReferenceFault

def message : ReferenceFault → String
  | missingBase target base file => s!"target `{target}` extends unknown base `{base}` in {file.text}"
  | targetCycle chain => s!"cycle detected in target extends: {arrows (chain.map TargetKey.text)}"
  | importCycle chain => s!"cycle detected in registry imports: {arrows (chain.map Location.text)}"
  | defaultsCycle chain =>
    s!"bit defaults refer back to themselves: {arrows (chain.map PresetKey.label)}"
  | presetCycle chain => s!"bit presets refer back to themselves: {arrows (chain.map PresetKey.label)}"

def code : ReferenceFault → String
  | missingBase .. => "missing_base"
  | targetCycle _ => "extends_cycle"
  | importCycle _ => "import_cycle"
  | defaultsCycle _ => "defaults_cycle"
  | presetCycle _ => "preset_cycle"

def help? : ReferenceFault → Option String
  | missingBase .. =>
    some "declare the base target, or use `path::Name` to reference another registry"
  | defaultsCycle _ => some "select a named preset instead of `default` inside the bit's own defaults"
  | presetCycle _ => some "a preset's queries cannot select the same bit with the same preset"
  | _ => none

end ReferenceFault

inductive Error
  | file (fault : FileFault)
  | registryNotFound (path : String)
  | registryLoad (path : Location) (source : Error)
  | reference (fault : ReferenceFault)
  | within (context : String) (source : Error)
  | registryParse (path : String) (fault : DocumentFault)
  | unsupportedFormat (name : String)
  | configParse (fault : DocumentFault)
  | duplicateElement (label : String)
  | elementNotFound (id : String)
  | emptyFragments (bit : String)
  | invalidPattern (pattern : String)
  | invalidQuery (reason : String)
  | unknownMergeMode (mode : String)
  | unknownDedupe (key : String)
  | unknownMergePolicy (part policy : String)
  | unknownOverrideOp (op : String)
  | overridePath (path reason : String)
  | presetNotFound (bit selector : String)
  | presetOutOfRange (bit : String) (index : Int) (count : Nat)
  | presetOverridesWithoutQueries (bit selector : String)
  | unsupportedDestination (dest : String)
  | missingTemplate (target : String)
  | templateLoad (path : String) (reason : String)
  | templateRender (fault : TemplateFault)
  | compile (summary detail : String) (log : Option Location)
  /-- References nest deeper than there are declarations, which no set of registries does. -/
  | depthExceeded

namespace Error

def message : Error → String
  | file fault => s!"<io: {fault.name}>"
  | registryNotFound path => s!"registry not found: {path}"
  | registryLoad path _ => s!"failed to load registry: {path.text}"
  | reference fault => fault.message
  | within context _ => context
  | registryParse path fault => s!"failed to parse registry `{path}`: {fault.message}"
  | unsupportedFormat name => s!"unsupported registry format: `{name}`"
  | configParse fault => s!"failed to parse config file: {fault.message}"
  | duplicateElement label => s!"element `{label}` already exists in this collection"
  | elementNotFound id => s!"element `{id}` not found"
  | emptyFragments bit => s!"bit `{bit}` declares an empty fragment map"
  | invalidPattern pattern => s!"invalid name pattern `{pattern}`: <syntax>"
  | invalidQuery reason => s!"invalid query: {reason}"
  | unknownMergeMode mode => s!"unknown merge mode: `{mode}`"
  | unknownDedupe key => s!"unknown dedupe key: `{key}`"
  | unknownMergePolicy part policy => s!"unknown merge policy `{policy}` for `{part}`"
  | unknownOverrideOp op => s!"unknown override op: `{op}`"
  | overridePath path reason => s!"malformed override path `{path}`: {reason}"
  | presetNotFound bit selector => s!"preset `{selector}` not found for bit `{bit}`"
  | presetOutOfRange bit index count =>
    s!"preset index {index} is out of range for bit `{bit}` ({count} preset(s))"
  | presetOverridesWithoutQueries bit selector =>
    s!"preset `{selector}` of bit `{bit}` has overrides but no queries to apply them to"
  | unsupportedDestination dest =>
    s!"target destination must be a directory or a `.pdf` file, got `{dest}`"
  | missingTemplate target => s!"target `{target}` has no template"
  | templateLoad path reason => s!"failed to load template `{path}`: {reason}"
  | templateRender fault => s!"template rendering failed: {fault.message}"
  | compile summary detail _ => s!"{summary}: {detail}"
  | depthExceeded => "references are nested too deeply"

def code (e : Error) : String :=
  "bits::" ++ match e with
    | file _ => "io_error"
    | registryNotFound _ => "registry_not_found"
    | registryLoad .. => "registry_load"
    | reference fault => fault.code
    | within .. => "context"
    | registryParse .. => "registry_parse"
    | unsupportedFormat _ => "unsupported_format"
    | configParse _ => "config_parse"
    | duplicateElement _ => "duplicate_element"
    | elementNotFound _ => "element_not_found"
    | emptyFragments _ => "empty_fragments"
    | invalidPattern _ => "invalid_pattern"
    | invalidQuery _ => "invalid_query"
    | unknownMergeMode _ => "unknown_merge_mode"
    | unknownDedupe _ => "unknown_dedupe"
    | unknownMergePolicy .. => "unknown_merge_policy"
    | unknownOverrideOp _ => "unknown_override_op"
    | overridePath .. => "override_path"
    | presetNotFound .. => "preset_not_found"
    | presetOutOfRange .. => "preset_out_of_range"
    | presetOverridesWithoutQueries .. => "preset_overrides"
    | unsupportedDestination _ => "unsupported_destination"
    | missingTemplate _ => "missing_template"
    | templateLoad .. => "template_load"
    | templateRender _ => "template_render"
    | compile .. => "latex"
    | depthExceeded => "depth_exceeded"

def help? : Error → Option String
  | registryNotFound _ =>
    some "check that the registry path exists, or add an `index.yml` to the directory"
  | reference fault => fault.help?
  | unsupportedFormat _ => some "supported formats: yaml, yml, json, toml, md"
  | configParse _ => some "check that bits.toml is valid TOML (or .bitsrc valid INI)"
  | emptyFragments _ =>
    some "`src` must be a template string or a non-empty map of fragment names to strings"
  | unknownMergeMode _ => some "supported merge modes: concat, interleave"
  | unknownDedupe _ => some "supported keys: by:id, by:name, by:hash"
  | unknownMergePolicy .. => some "supported policies: merge, replace"
  | unknownOverrideOp _ => some "supported ops: set, merge, remove"
  | missingTemplate _ => some "set `template` on the target or `defaults.template` in bits.toml"
  | compile .. => some "check your LaTeX syntax and installed packages"
  | _ => none

/-- The error that this one wraps. -/
def cause? : Error → Option Error
  | registryLoad _ source => some source
  | within _ source => some source
  | _ => none

/-- The errors that this one wraps, from the outside in. -/
def causes : Error → List Error
  | registryLoad _ source => source :: source.causes
  | within _ source => source :: source.causes
  | _ => []

/-- The innermost error. -/
def root : Error → Error
  | registryLoad _ source => source.root
  | within _ source => source.root
  | e => e

/-- The broken reference behind an error, if that is what stopped the load. -/
def reference? : Error → Option ReferenceFault
  | reference fault => some fault
  | registryLoad _ source => source.reference?
  | within _ source => source.reference?
  | _ => none

end Error

/-- A result or the error that prevented it. -/
abbrev Outcome (α : Type) := Except Error α

/-- Puts a sentence around the error of a result. -/
def Outcome.within (context : String) (r : Outcome α) : Outcome α := r.mapError (.within context)

end Bitpress
