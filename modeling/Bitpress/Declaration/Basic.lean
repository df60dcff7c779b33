import Bitpress.Decode
import Bitpress.Error
import Bitpress.Text.Basic

/-!
What a registry file declares: imports, bits with their presets, constants and
targets. Subtrees that take part in deep merges and path overrides stay trees.
-/

namespace Bitpress

/-- How one part of a target or preset meets the part it derives from. -/
inductive MergePolicy
  | merge
  | replace
deriving DecidableEq

/-- The parts of a spec that have a merge policy. -/
inductive Part
  | context
  | queries
  | compose
deriving DecidableEq

def Part.name : Part → String
  | .context => "context"
  | .queries => "queries"
  | .compose => "compose"

/-- The declared merge policies, as they are written. -/
structure MergeHints where
  context : Option String := none
  queries : Option String := none
  compose : Option String := none
deriving DecidableEq, Inhabited

namespace MergeHints

def hint? (h : MergeHints) : Part → Option String
  | .context => h.context
  | .queries => h.queries
  | .compose => h.compose

def isEmpty (h : MergeHints) : Bool :=
  h.context.isNone && h.queries.isNone && h.compose.isNone

/-- The policy of a part; merging when nothing is declared. -/
def policy (h : MergeHints) (part : Part) : Outcome MergePolicy :=
  match h.hint? part with
  | none => .ok .merge
  | some written =>
    let word := Text.trim written
    if word = "merge" ∨ word = "deep" then .ok .merge
    else if word = "replace" then .ok .replace
    else .error (.unknownMergePolicy part.name word)

end MergeHints

/-- A change at a path of a spec: the path, the value and the operation, as they are written. -/
structure OverrideDecl where
  path : String
  value : Tree := .null
  op : Option String := none
deriving Inhabited

structure ImportDecl where
  registry : String
deriving DecidableEq, Inhabited

/-- The template text of a bit: one text, or texts under names. -/
inductive BitSource
  | single (text : String)
  | fragments (parts : Table String)
deriving DecidableEq, Inhabited

structure PresetDecl where
  name : Option String := none
  label : Option String := none
  id : Option Tree := none
  context : Table Tree := []
  queries : Table Tree := []
  compose : Table Tree := []
  merge : MergeHints := {}
  overrides : List OverrideDecl := []
deriving Inhabited

/-- The name of a preset in messages: its name, else its label, else its scalar id. -/
def PresetDecl.displayName? (p : PresetDecl) : Option String :=
  p.name <|> p.label <|> p.id.bind Tree.scalarText?

structure BitDecl where
  name : Option String := none
  tags : List String := []
  author : Option String := none
  kind : Option String := none
  level : Option Int := none
  defaults : Table Tree := []
  presets : List PresetDecl := []
  src : BitSource := .single ""
  metadata : Table Tree := []
deriving Inhabited

structure ConstantDecl where
  name : Option String := none
  tags : List String := []
  symbol : String
  value : String
  metadata : Table Tree := []
deriving Inhabited

/-- The bases that a target extends: one name, or a list of names. -/
inductive Extends
  | one (base : String)
  | many (bases : List String)
deriving DecidableEq, Inhabited

structure TargetDecl where
  name : Option String := none
  tags : List String := []
  template : Option String := none
  dest : Option String := none
  context : Table Tree := []
  queries : Table Tree := []
  compose : Table Tree := []
  merge : MergeHints := {}
  extends? : Option Extends := none
  overrides : List OverrideDecl := []
deriving Inhabited

def TargetDecl.bases (t : TargetDecl) : List String :=
  match t.extends? with
  | some (.one base) => [base]
  | some (.many bases) => bases
  | none => []

/-- A whole registry file. Its tags count for everything in it. -/
structure RegistryDocument where
  tags : List String := []
  imports : List ImportDecl := []
  bits : List BitDecl := []
  constants : List ConstantDecl := []
  targets : List TargetDecl := []
deriving Inhabited

/-- The first target with a name. -/
def RegistryDocument.target? (d : RegistryDocument) (name : String) : Option TargetDecl :=
  d.targets.find? fun t => t.name == some name

end Bitpress
