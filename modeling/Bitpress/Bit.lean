import Bitpress.Declaration.Codec
import Bitpress.Element
import Bitpress.Legacy

/-!
Bits: template snippets with defaults and presets.
-/

namespace Bitpress

/-- The defaults of a bit: static variables, queries and how their results are composed. -/
structure DefaultsSpec where
  context : Table Tree := []
  queries : Table Tree := []
  compose : Table Tree := []
deriving Inhabited

namespace DefaultsSpec

def partNames : List String := ["context", "queries", "compose"]

def tableAt (t : Table Tree) (key : String) : Table Tree :=
  ((t.valueAt? key).bind Tree.table?).getD []

/-- Defaults with nothing but the three parts keep their variables in the part `context`. -/
def isStructured (defaults : Table Tree) : Bool :=
  (defaults.valueAt? "context").any Tree.isMap && defaults.keyList.all partNames.contains

/-- The variables of declared defaults: those of `context`, or every key that names no part. -/
def declaredContext (defaults : Table Tree) : Table Tree :=
  if isStructured defaults then tableAt defaults "context"
  else defaults.filter fun e => e.1 != "queries" && e.1 != "compose"

def ofTable (defaults : Table Tree) : DefaultsSpec :=
  let lifted := Legacy.lift (declaredContext defaults) (tableAt defaults "queries")
  ⟨lifted.context, lifted.queries, tableAt defaults "compose"⟩

/-- The warnings about declared defaults. -/
def warnings (defaults : Table Tree) : List Warning :=
  Legacy.warnings (declaredContext defaults) (tableAt defaults "queries")

end DefaultsSpec

structure Bit where
  info : ElementInfo
  source : BitSource
  defaults : DefaultsSpec
  /-- The declared presets without the reserved ones. -/
  presets : List PresetDecl
deriving Inhabited

namespace Bit

/-- The name of the preset that stands for a bit's own defaults. -/
def defaultPreset : String := "default"

def isReserved (p : PresetDecl) : Bool := p.name == some defaultPreset

def reservedWarning (label : String) : Warning :=
  ⟨"dropping declared preset `default`, the name is reserved for the bit's own defaults",
    [("bit", label)]⟩

/-- The metadata of a declaration: its author, kind and level, then all other keys. -/
def declaredMetadata (d : BitDecl) : Table Tree :=
  Table.putAll
    (Encode.optional "author" .str d.author ++ Encode.optional "kind" .str d.kind ++
      Encode.optional "level" .int d.level) d.metadata

/-- The bit of a declaration, with the tags of its registry after its own. -/
def ofDecl (d : BitDecl) (commonTags : List String) : Press Bit := do
  let label := d.name.getD "<unnamed>"
  if d.src = .fragments [] then throw (.emptyFragments label)
  Press.warnAll ((d.presets.filter isReserved).map fun _ => reservedWarning label)
  let info ← ElementInfo.create d.name (d.tags ++ commonTags) (declaredMetadata d)
  Press.warnAll (DefaultsSpec.warnings d.defaults)
  return ⟨info, d.src, .ofTable d.defaults, d.presets.filter fun p => !isReserved p⟩

def fragmentNames (b : Bit) : List String :=
  match b.source with
  | .single _ => []
  | .fragments parts => parts.keyList

def hasSeveralFragments (b : Bit) : Bool := 1 < b.fragmentNames.length

/-- The template text of a part. A single text has no parts, and of several fragments one must be
named. -/
def fragment (b : Bit) (part : Option String) : Outcome String :=
  let label := b.info.name.getD b.info.id.text
  let names := String.intercalate ", " b.fragmentNames
  let fault (reason : String) : Outcome String := .error (.templateRender (.fragment reason))
  match b.source, part with
  | .single text, none => .ok text
  | .single _, some p => fault s!"bit `{label}` has a single source and no fragment `{p}`"
  | .fragments parts, some p =>
    match parts.valueAt? p with
    | some text => .ok text
    | none => fault s!"bit `{label}` has no fragment `{p}`, available fragments: {names}"
  | .fragments [(_, text)], none => .ok text
  | .fragments _, none => fault s!"bit `{label}` has several fragments, choose one of: {names}"

def ownField? (b : Bit) (key : String) : Option Tree :=
  if key = "src" then some b.source.encode
  else if key = "defaults" then
    some (.map [("context", .map b.defaults.context), ("queries", .map b.defaults.queries)])
  else if key = "presets" then some (.list (b.presets.map PresetDecl.encode))
  else none

instance : Element Bit := ⟨Bit.info, Bit.ownField?⟩

def label (b : Bit) : String := Element.label b

end Bit

end Bitpress
