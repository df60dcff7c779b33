import Bitpress.Bit
import Bitpress.Constant

/-!
Contexts: the variables of a template after resolution. A value is plain data, a
block, which is a bit bound to a context of its own, or a constant.
-/

namespace Bitpress

inductive ContextValue
  | null
  | bool (b : Bool)
  | num (n : Number)
  | str (s : String)
  | list (items : List ContextValue)
  | map (entries : List (String × ContextValue))
  | block (bit : Bit) (context : List (String × ContextValue)) (metadata : List (String × Tree))
  | constant (c : Constant)
deriving Inhabited

/-- Template variables, in order. -/
abbrev Context := Table ContextValue

/-- A bit bound to variables, with the metadata of the query that bound it. -/
structure Block where
  bit : Bit
  context : Context
  metadata : Table Tree

def Block.toValue (b : Block) : ContextValue := .block b.bit b.context b.metadata

namespace ContextValue

mutual

def ofTree : Tree → ContextValue
  | .null => .null
  | .bool b => .bool b
  | .num n => .num n
  | .str s => .str s
  | .list items => .list (ofItems items)
  | .map entries => .map (ofEntries entries)

def ofItems : List Tree → List ContextValue
  | [] => []
  | t :: rest => ofTree t :: ofItems rest

def ofEntries : List (String × Tree) → List (String × ContextValue)
  | [] => []
  | (k, t) :: rest => (k, ofTree t) :: ofEntries rest

end

/-- The identity of the element behind a block or constant. -/
def elementId? : ContextValue → Option ElementId
  | .block bit _ _ => some bit.info.id
  | .constant c => some c.info.id
  | _ => none

/-- The name of the element behind a block or constant. -/
def elementName? : ContextValue → Option String
  | .block bit _ _ => bit.info.name
  | .constant c => c.info.name
  | _ => none

/-- The source of a bit as part of a fingerprint. -/
def sourceText : BitSource → String
  | .single text => "Single(" ++ Text.quoted text ++ ")"
  | .fragments parts =>
    "Fragments(\x7b" ++
      String.intercalate ", " (parts.map fun e => Text.quoted e.1 ++ ": " ++ Text.quoted e.2) ++ "\x7d)"

mutual

/-- A text that says what a value holds, for telling values apart by content. -/
def fingerprint : ContextValue → String
  | .null => "null"
  | .bool b => if b then "true" else "false"
  | .num n => n.text
  | .str s => Text.quoted s
  | .list items => "[" ++ fingerprintItems items ++ "]"
  | .map entries => "\x7b" ++ fingerprintEntries entries ++ "\x7d"
  | .block bit context _ =>
    "block(" ++ sourceText bit.source ++ "|\x7b" ++ fingerprintEntries context ++ "\x7d)"
  | .constant c => "constant(" ++ Text.quoted c.symbol ++ "=" ++ Text.quoted c.value ++ ")"

def fingerprintItems : List ContextValue → String
  | [] => ""
  | v :: rest => fingerprint v ++ "," ++ fingerprintItems rest

def fingerprintEntries : List (String × ContextValue) → String
  | [] => ""
  | (k, v) :: rest => Text.quoted k ++ ":" ++ fingerprint v ++ "," ++ fingerprintEntries rest

end

mutual

/-- A value with another laid over it: two maps merge, anything else is replaced. -/
def overlay (base above : ContextValue) : ContextValue :=
  match above with
  | .map entries =>
    match base with
    | .map there => .map (overlayEntries there entries)
    | _ => .map entries
  | other => other

/-- The variables of an overlay, from the first on, laid over others. -/
def overlayEntries (base above : List (String × ContextValue)) : List (String × ContextValue) :=
  match above with
  | [] => base
  | (key, value) :: rest =>
    match Table.valueAt? base key with
    | some there => overlayEntries (Table.put base key (overlay there value)) rest
    | none => overlayEntries (Table.put base key value) rest

end

end ContextValue

namespace Context

/-- The variables of a declared map. -/
def ofTable (t : Table Tree) : Context := ContextValue.ofEntries t

/-- The variables `base` with others merged over them. -/
def merge (base above : Context) : Context := ContextValue.overlayEntries base above

end Context

end Bitpress
