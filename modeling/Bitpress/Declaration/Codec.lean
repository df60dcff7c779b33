import Bitpress.Declaration.Basic

/-!
The tree form of registry declarations. Every declaration has a decoder, which
takes its fields in the order of the map, and an encoder, which leaves out what
is absent or empty.
-/

namespace Bitpress

namespace MergeHints

def field (h : MergeHints) (key : String) (t : Tree) : Decoded MergeHints :=
  match key with
  | "context" => do return { h with context := ← Decode.optional Decode.string t }
  | "queries" => do return { h with queries := ← Decode.optional Decode.string t }
  | "compose" => do return { h with compose := ← Decode.optional Decode.string t }
  | _ => .ok h

def decode (t : Tree) : Decoded MergeHints :=
  Decode.fieldsOrItems "MergeHints" ["context", "queries", "compose"] 0 field {} t

def encode (h : MergeHints) : Tree :=
  .map (Encode.optional "context" .str h.context ++ Encode.optional "queries" .str h.queries ++
    Encode.optional "compose" .str h.compose)

end MergeHints

namespace OverrideDecl

/-- An override whose path has not been met yet. -/
structure Draft where
  path : Option String := none
  value : Tree := .null
  op : Option String := none

def field (d : Draft) (key : String) (t : Tree) : Decoded Draft :=
  match key with
  | "path" => do return { d with path := some (← Decode.string t) }
  | "value" => .ok { d with value := t }
  | "op" => do return { d with op := ← Decode.optional Decode.string t }
  | _ => .ok d

def decode (t : Tree) : Decoded OverrideDecl := do
  let d ← Decode.fieldsOrItems "OverrideDecl" ["path", "value", "op"] 1 field {} t
  return ⟨← Decode.require "path" d.path, d.value, d.op⟩

def encode (o : OverrideDecl) : Tree :=
  .map (("path", .str o.path) :: (if o.value.isNull then [] else [("value", o.value)]) ++
    Encode.optional "op" .str o.op)

end OverrideDecl

namespace ImportDecl

def field (registry : Option String) (key : String) (t : Tree) : Decoded (Option String) :=
  match key with
  | "registry" => do return some (← Decode.string t)
  | _ => .ok registry

def decode (t : Tree) : Decoded ImportDecl := do
  let d ← Decode.fieldsOrItems "ImportDecl" ["registry"] 1 field none t
  return ⟨← Decode.require "registry" d⟩

def encode (i : ImportDecl) : Tree := .map [("registry", .str i.registry)]

end ImportDecl

namespace BitSource

/-- A text, or a map of texts; for anything else there is no telling which was meant. -/
def decode : Tree → Decoded BitSource
  | .str s => .ok (.single s)
  | t =>
    match Decode.tableOf Decode.string t with
    | .ok parts => .ok (.fragments parts)
    | .error _ => .error (.noVariant "BitSource")

def encode : BitSource → Tree
  | .single s => .str s
  | .fragments parts => .map (parts.mapValues .str)

end BitSource

namespace PresetDecl

def field (p : PresetDecl) (key : String) (t : Tree) : Decoded PresetDecl :=
  match key with
  | "name" => do return { p with name := ← Decode.optional Decode.string t }
  | "label" => do return { p with label := ← Decode.optional Decode.string t }
  | "id" => .ok { p with id := if t.isNull then none else some t }
  | "context" => do return { p with context := ← Decode.table t }
  | "queries" => do return { p with queries := ← Decode.table t }
  | "compose" => do return { p with compose := ← Decode.table t }
  | "merge" => do return { p with merge := ← MergeHints.decode t }
  | "overrides" => do return { p with overrides := ← Decode.list OverrideDecl.decode t }
  | _ => .ok p

def decode (t : Tree) : Decoded PresetDecl :=
  Decode.fieldsOrItems "PresetDecl"
    ["name", "label", "id", "context", "queries", "compose", "merge", "overrides"] 0 field {} t

def encode (p : PresetDecl) : Tree :=
  .map (Encode.optional "name" .str p.name ++ Encode.optional "label" .str p.label ++
    Encode.optional "id" (fun t => t) p.id ++ Encode.table "context" p.context ++
    Encode.table "queries" p.queries ++ Encode.table "compose" p.compose ++
    (if p.merge.isEmpty then [] else [("merge", p.merge.encode)]) ++
    Encode.list "overrides" OverrideDecl.encode p.overrides)

end PresetDecl

namespace BitDecl

/-- Fields without a meaning of their own are metadata. -/
def field (b : BitDecl) (key : String) (t : Tree) : Decoded BitDecl :=
  match key with
  | "name" => do return { b with name := ← Decode.optional Decode.string t }
  | "tags" => do return { b with tags := ← Decode.strings t }
  | "author" => do return { b with author := ← Decode.optional Decode.string t }
  | "kind" => do return { b with kind := ← Decode.optional Decode.string t }
  | "level" => do return { b with level := ← Decode.optional Decode.signed t }
  | "defaults" => do return { b with defaults := ← Decode.table t }
  | "presets" => do return { b with presets := ← Decode.list PresetDecl.decode t }
  | "src" => do return { b with src := ← BitSource.decode t }
  | _ => .ok { b with metadata := b.metadata.put key t }

def decode (t : Tree) : Decoded BitDecl := Decode.fields "BitDecl" field {} t

def encode (b : BitDecl) : Tree :=
  .map (Encode.optional "name" .str b.name ++ Encode.list "tags" .str b.tags ++
    Encode.optional "author" .str b.author ++ Encode.optional "kind" .str b.kind ++
    Encode.optional "level" .int b.level ++ Encode.table "defaults" b.defaults ++
    Encode.list "presets" PresetDecl.encode b.presets ++ [("src", b.src.encode)] ++ b.metadata)

end BitDecl

namespace ConstantDecl

/-- A constant whose symbol and value may not have been met yet. -/
structure Draft where
  name : Option String := none
  tags : List String := []
  symbol : Option String := none
  value : Option String := none
  metadata : Table Tree := []

def field (d : Draft) (key : String) (t : Tree) : Decoded Draft :=
  match key with
  | "name" => do return { d with name := ← Decode.optional Decode.string t }
  | "tags" => do return { d with tags := ← Decode.strings t }
  | "symbol" => do return { d with symbol := some (← Decode.scalarText t) }
  | "value" => do return { d with value := some (← Decode.scalarText t) }
  | _ => .ok { d with metadata := d.metadata.put key t }

def decode (t : Tree) : Decoded ConstantDecl := do
  let d ← Decode.fields "ConstantDecl" field {} t
  return ⟨d.name, d.tags, ← Decode.require "symbol" d.symbol, ← Decode.require "value" d.value,
    d.metadata⟩

def encode (c : ConstantDecl) : Tree :=
  .map (Encode.optional "name" .str c.name ++ Encode.list "tags" .str c.tags ++
    [("symbol", .str c.symbol), ("value", .str c.value)] ++ c.metadata)

end ConstantDecl

namespace Extends

def decode : Tree → Decoded Extends
  | .str s => .ok (.one s)
  | t =>
    match Decode.strings t with
    | .ok bases => .ok (.many bases)
    | .error _ => .error (.noVariant "Extends")

def encode : Extends → Tree
  | .one base => .str base
  | .many bases => .ofStrings bases

end Extends

namespace TargetDecl

def field (d : TargetDecl) (key : String) (t : Tree) : Decoded TargetDecl :=
  match key with
  | "name" => do return { d with name := ← Decode.optional Decode.string t }
  | "tags" => do return { d with tags := ← Decode.strings t }
  | "template" => do return { d with template := ← Decode.optional Decode.string t }
  | "dest" => do return { d with dest := ← Decode.optional Decode.string t }
  | "context" => do return { d with context := ← Decode.table t }
  | "queries" => do return { d with queries := ← Decode.table t }
  | "compose" => do return { d with compose := ← Decode.table t }
  | "merge" => do return { d with merge := ← MergeHints.decode t }
  | "extends" => do return { d with extends? := ← Decode.optional Extends.decode t }
  | "overrides" => do return { d with overrides := ← Decode.list OverrideDecl.decode t }
  | _ => .ok d

def decode (t : Tree) : Decoded TargetDecl :=
  Decode.fieldsOrItems "TargetDecl"
    ["name", "tags", "template", "dest", "context", "queries", "compose", "merge", "extends",
      "overrides"] 0 field {} t

def encode (d : TargetDecl) : Tree :=
  .map (Encode.optional "name" .str d.name ++ Encode.list "tags" .str d.tags ++
    Encode.optional "template" .str d.template ++ Encode.optional "dest" .str d.dest ++
    Encode.table "context" d.context ++ Encode.table "queries" d.queries ++
    Encode.table "compose" d.compose ++
    (if d.merge.isEmpty then [] else [("merge", d.merge.encode)]) ++
    Encode.optional "extends" Extends.encode d.extends? ++
    Encode.list "overrides" OverrideDecl.encode d.overrides)

end TargetDecl

namespace RegistryDocument

def field (d : RegistryDocument) (key : String) (t : Tree) : Decoded RegistryDocument :=
  match key with
  | "tags" => do return { d with tags := ← Decode.strings t }
  | "imports" => do return { d with imports := ← Decode.list ImportDecl.decode t }
  | "bits" => do return { d with bits := ← Decode.list BitDecl.decode t }
  | "constants" => do return { d with constants := ← Decode.list ConstantDecl.decode t }
  | "targets" => do return { d with targets := ← Decode.list TargetDecl.decode t }
  | _ => .ok d

def decode (t : Tree) : Decoded RegistryDocument :=
  Decode.fieldsOrItems "RegistryDocument" ["tags", "imports", "bits", "constants", "targets"] 0 field
    {} t

def encode (d : RegistryDocument) : Tree :=
  .map (Encode.list "tags" .str d.tags ++ Encode.list "imports" ImportDecl.encode d.imports ++
    Encode.list "bits" BitDecl.encode d.bits ++
    Encode.list "constants" ConstantDecl.encode d.constants ++
    Encode.list "targets" TargetDecl.encode d.targets)

end RegistryDocument

end Bitpress
