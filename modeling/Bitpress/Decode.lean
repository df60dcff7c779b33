import Bitpress.Text.Quoted
import Bitpress.Tree
import Bitpress.Json.Writer

/-!
Decoding: giving a data tree the shape of a declaration. A fault says what was
found and what was expected. The fields of a record are taken in the order in
which the map gives them, and the first field that does not fit is the fault.
-/

namespace Bitpress

inductive DecodeFault
  | invalidType (found : String) (expected : String)
  | invalidValue (found : String) (expected : String)
  | invalidLength (length : Nat) (expected : String)
  | missingField (name : String)
  | duplicateField (name : String)
  | unknownField (name : String) (known : List String)
  | unknownVariant (name : String) (known : List String)
  | noVariant (type : String)
  | notScalar (found : String)
deriving DecidableEq

namespace DecodeFault

def ticked (s : String) : String := "`" ++ s ++ "`"

/-- One name, two names with `or` between them, or a list of them. -/
def oneOf : List String → String
  | [a] => ticked a
  | [a, b] => ticked a ++ " or " ++ ticked b
  | names => "one of " ++ String.intercalate ", " (names.map ticked)

def message : DecodeFault → String
  | invalidType found expected => s!"invalid type: {found}, expected {expected}"
  | invalidValue found expected => s!"invalid value: {found}, expected {expected}"
  | invalidLength n expected => s!"invalid length {n}, expected {expected}"
  | missingField name => s!"missing field {ticked name}"
  | duplicateField name => s!"duplicate field {ticked name}"
  | unknownField name known => s!"unknown field {ticked name}, expected {oneOf known}"
  | unknownVariant name known => s!"unknown variant {ticked name}, expected {oneOf known}"
  | noVariant type => s!"data did not match any variant of untagged enum {type}"
  | notScalar found => s!"expected a scalar, got {ticked found}"

end DecodeFault

/-- A decoded value or the fault that was found first. -/
abbrev Decoded (α : Type) := Except DecodeFault α

namespace Decode

/-- What a tree is, in the words of a fault. -/
def found : Tree → String
  | .null => "null"
  | .bool b => "boolean " ++ DecodeFault.ticked (if b then "true" else "false")
  | .num (.int n) => s!"integer `{n}`"
  | .num n => s!"floating point `{n.text}`"
  | .str s => s!"string {Text.quoted s}"
  | .list _ => "sequence"
  | .map _ => "map"

def mismatch (t : Tree) (expected : String) : Decoded α := .error (.invalidType (found t) expected)

def string : Tree → Decoded String
  | .str s => .ok s
  | t => mismatch t "a string"

def boolean : Tree → Decoded Bool
  | .bool b => .ok b
  | t => mismatch t "a boolean"

/-- A whole number between two bounds; `expected` names its type. -/
def wholeBetween (low high : Int) (expected : String) : Tree → Decoded Int
  | .num (.int n) =>
    if low ≤ n ∧ n ≤ high then .ok n else .error (.invalidValue (found (.int n)) expected)
  | t => mismatch t expected

/-- A signed whole number of 64 bits. -/
def signed (t : Tree) : Decoded Int := wholeBetween Number.leastInt Number.greatestSigned "i64" t

/-- A count or position. -/
def count (t : Tree) : Decoded Nat := (wholeBetween 0 Number.greatestInt "usize" t).map Int.toNat

/-- An unsigned whole number of 64 bits. -/
def unsigned (t : Tree) : Decoded Nat := (wholeBetween 0 Number.greatestInt "u64" t).map Int.toNat

def optional (read : Tree → Decoded α) : Tree → Decoded (Option α)
  | .null => .ok none
  | t => (read t).map some

def list (read : Tree → Decoded α) : Tree → Decoded (List α)
  | .list items => items.mapM read
  | t => mismatch t "a sequence"

def strings : Tree → Decoded (List String) := list string

def table : Tree → Decoded (Table Tree)
  | .map entries => .ok entries
  | t => mismatch t "a map"

def tableOf (read : Tree → Decoded α) : Tree → Decoded (Table α)
  | .map entries => entries.mapM fun (k, t) => (read t).map fun v => (k, v)
  | t => mismatch t "a map"

/-- The text of a string, number or boolean. -/
def scalarText (t : Tree) : Decoded String :=
  match t.scalarText? with
  | some s => .ok s
  | none => .error (.notScalar (Json.compact t))

/-- One of several names, as a text or as a map from the name to null. -/
def choice (ofName : String → Decoded α) : Tree → Decoded α
  | .str s => ofName s
  | .map [(name, value)] => do
    let chosen ← ofName name
    match value with
    | .null => return chosen
    | t => mismatch t "unit"
  | .map _ => .error (.invalidValue "map" "map with a single key")
  | t => mismatch t "string or map"

/-- The fields of a record given as a map, one after the other. -/
def fields (type : String) (field : σ → String → Tree → Decoded σ) (start : σ) : Tree → Decoded σ
  | .map entries => entries.foldlM (fun s e => field s e.1 e.2) start
  | t => mismatch t s!"struct {type}"

/-- The fields of a record given as a map, or as a list in the order of their names. Fields at the end
of a list may be missing down to the first `required` ones. -/
def fieldsOrItems (type : String) (names : List String) (required : Nat)
    (field : σ → String → Tree → Decoded σ) (start : σ) : Tree → Decoded σ
  | .map entries => entries.foldlM (fun s e => field s e.1 e.2) start
  | .list items => do
    let s ← (names.zip items).foldlM (fun s e => field s e.1 e.2) start
    if items.length < required then
      let elements := if names.length = 1 then "1 element" else s!"{names.length} elements"
      throw (.invalidLength items.length s!"struct {type} with {elements}")
    else if names.length < items.length then
      throw (.invalidLength items.length "fewer elements in array")
    else return s
  | t => mismatch t s!"struct {type}"

/-- A field that has to be there. -/
def require (name : String) : Option α → Decoded α
  | some a => .ok a
  | none => .error (.missingField name)

end Decode

namespace Encode

/-- A field that is left out when its value is absent. -/
def optional (name : String) (write : α → Tree) : Option α → Table Tree
  | some a => [(name, write a)]
  | none => []

/-- A field that is left out when its list is empty. -/
def list (name : String) (write : α → Tree) : List α → Table Tree
  | [] => []
  | items => [(name, .list (items.map write))]

/-- A field that is left out when its map is empty. -/
def table (name : String) : Table Tree → Table Tree
  | [] => []
  | entries => [(name, .map entries)]

/-- A field that is left out when it is false. -/
def flag (name : String) (b : Bool) : Table Tree := if b then [(name, .bool true)] else []

end Encode

end Bitpress

/-! ### Faults of texts

What can be wrong with the text of a document or of a configuration file. Where a
text stops being well formed is not part of the wording. -/

namespace Bitpress

inductive DocumentFault
  | malformed
  | decode (fault : DecodeFault)
  /-- A value that cannot be data, at the very beginning of the text. -/
  | atStart (fault : DecodeFault)
  | noFrontmatter
  | frontmatterNotMap (found : String)
  | headerNotMap (found : String)
  | noCodeBlock
  | unnamedFragment
  | notANumber (text : String)
deriving DecidableEq

def DocumentFault.message : DocumentFault → String
  | malformed => "<syntax>"
  | decode fault => fault.message
  | atStart fault => fault.message ++ " at position 0"
  | noFrontmatter => "markdown registries must start with `---` frontmatter"
  | frontmatterNotMap found => s!"frontmatter must be a map, got `{found}`"
  | headerNotMap found => s!"bit header must be a map, got `{found}`"
  | noCodeBlock => "bit section has no ```latex code block"
  | unnamedFragment => "every code block of a multi-fragment bit needs a fragment name"
  | notANumber text => s!"`{text}` cannot be represented as a number"

end Bitpress
