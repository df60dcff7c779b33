import Bitpress.Decode
import Bitpress.Json.Token
import Bitpress.Yaml.Node

/-!
What YAML nodes mean as data. A plain scalar is null, a boolean or a number if it
is spelled like one, and a text otherwise; a tag can ask for one of these.

A fault at the very beginning of a text is worded; any other one only says that
the text is malformed.
-/

namespace Bitpress.Yaml

def isNullWord (s : String) : Bool := ["null", "Null", "NULL", "~"].contains s

def boolean? (s : String) : Option Bool :=
  if ["true", "True", "TRUE"].contains s then some true
  else if ["false", "False", "FALSE"].contains s then some false
  else none

/-! ### Numbers -/

/-- The number that digits spell in a base. -/
def digitsIn? (base : Nat) (cs : List Char) : Option Nat :=
  if cs.isEmpty then none
  else cs.foldlM (fun n c => (hexDigit? c).bind fun d => if d < base then some (n * base + d) else none) 0

/-- Several digits after a zero spell no number. -/
def digitsButText (cs : List Char) : Bool :=
  let cs := match cs with
    | '-' :: rest => rest
    | '+' :: rest => rest
    | cs => cs
  1 < cs.length && cs.head? == some '0' && cs.all Char.isDigit

/-- A number without sign: in base 16, 8 or 2 after a mark, else in base 10. -/
def magnitude? (cs : List Char) : Option Nat :=
  let marked : Option Nat := match cs with
    | '0' :: 'x' :: ds => digitsIn? 16 ds
    | '0' :: 'o' :: ds => digitsIn? 8 ds
    | '0' :: 'b' :: ds => digitsIn? 2 ds
    | _ => none
  marked <|> if digitsButText cs then none else digitsIn? 10 cs

/-- A whole number. -/
def whole? (cs : List Char) : Option Int :=
  match cs with
  | '-' :: ds => (magnitude? ds).map fun n => -(n : Int)
  | '+' :: ds => (magnitude? ds).map fun n => (n : Int)
  | ds => (magnitude? ds).map fun n => (n : Int)

/-- A number with a decimal point or a power of ten; digits may be missing on one side of the point. -/
def decimal? (cs : List Char) : Option Binary64 := do
  let (negative, cs) := Json.signOf cs
  let whole := cs.takeWhile Char.isDigit
  let rest := cs.drop whole.length
  let (places, rest) := match rest with
    | '.' :: rest => (rest.takeWhile Char.isDigit, rest.dropWhile Char.isDigit)
    | rest => ([], rest)
  if whole.isEmpty && places.isEmpty then none
  else
    let (power, rest) ← Json.power? rest
    if !rest.isEmpty then none
    else
      let digits := Json.natOfDigits (Json.digitValues (whole ++ places))
      let x := Binary64.ofDecimal negative digits (power.getD 0 - (places.length : Int))
      if x.isFinite then some x else none

def infiniteWords : List String := [".inf", ".Inf", ".INF"]

/-- A floating point number. -/
def real? (cs : List Char) : Option Binary64 :=
  let s := String.ofList cs
  let unsigned := match cs with
    | '+' :: rest => String.ofList rest
    | _ => s
  if infiniteWords.contains unsigned then some (.infinity false)
  else if (infiniteWords.map fun w => "-" ++ w).contains s then some (.infinity true)
  else if [".nan", ".NaN", ".NAN"].contains s then some .nan
  else decimal? cs

/-! ### Scalars -/

def anyValue : String := "any valid JSON value"

/-- Whole numbers beyond 64 bits are refused, up to those that no 128 bits hold. -/
def wholeTree (n : Int) : Option (Decoded Tree) :=
  if Number.leastInt ≤ n ∧ n ≤ Number.greatestInt then some (.ok (.int n))
  else if 0 ≤ n ∧ n < 0x100000000000000000000000000000000 then
    some (.error (.invalidType ("integer " ++ DecodeFault.ticked (toString n) ++ " as u128") anyValue))
  else if -0x80000000000000000000000000000000 ≤ n ∧ n < 0 then
    some (.error (.invalidType ("integer " ++ DecodeFault.ticked (toString n) ++ " as i128") anyValue))
  else none

/-- Data has no infinite numbers. -/
def realTree (x : Binary64) : Tree := if x.isFinite then .num (.real x) else .null

/-- What a plain scalar means. -/
def plainTree (s : String) : Decoded Tree :=
  let cs := s.toList
  if s = "" || isNullWord s then .ok .null
  else
    match boolean? s with
    | some b => .ok (.bool b)
    | none =>
      match (whole? cs).bind wholeTree with
      | some r => r
      | none =>
        match if digitsButText cs then none else real? cs with
        | some x => .ok (realTree x)
        | none => .ok (.str s)

def tagged (name : String) : String := "tag:yaml.org,2002:" ++ name

/-- What a scalar with a tag means; tags without a meaning of their own ask for text. -/
def taggedTree (tag s : String) : Decoded Tree :=
  let wrong (expected : String) : Decoded Tree := .error (.invalidValue (Decode.found (.str s)) expected)
  if tag.startsWith "!" then .error (.invalidType "enum" anyValue)
  else if tag = tagged "bool" then
    match boolean? s with
    | some b => .ok (.bool b)
    | none => wrong "a boolean"
  else if tag = tagged "int" then
    match (whole? s.toList).bind wholeTree with
    | some r => r
    | none => wrong "an integer"
  else if tag = tagged "float" then
    match real? s.toList with
    | some x => .ok (realTree x)
    | none => wrong "a float"
  else if tag = tagged "null" then if isNullWord s then .ok .null else wrong "null"
  else .ok (.str s)

def scalarTree (text : String) (plain : Bool) (tag : Option String) : Decoded Tree :=
  match tag with
  | some tag => taggedTree tag text
  | none => if plain then plainTree text else .ok (.str text)

/-! ### Collections -/

/-- The fault of a collection with a tag of its own. -/
def collectionTag (tag : Option String) : Decoded Unit :=
  if tag.any fun t => t.startsWith "!" then .error (.invalidType "enum" anyValue) else .ok ()

/-- The text of a key, which is a scalar. -/
def keyText : Node → Decoded String
  | .scalar text _ _ _ => .ok text
  | .list .. => .error (.invalidType "sequence" "a string key")
  | .map .. => .error (.invalidType "map" "a string key")

mutual

/-- The data of a node. Of a repeated key the first place and the last value count. -/
def Node.tree : Node → Decoded Tree
  | .scalar text plain tag _ => scalarTree text plain tag
  | .list items tag _ => do
    collectionTag tag
    return .list (← treesOf items)
  | .map entries tag _ => do
    collectionTag tag
    return .map (Table.ofPairs (← entriesOf entries))

def treesOf : List Node → Decoded (List Tree)
  | [] => .ok []
  | n :: rest => do return (← n.tree) :: (← treesOf rest)

def entriesOf : List (Node × Node) → Decoded (List (String × Tree))
  | [] => .ok []
  | (k, v) :: rest => do
    let key ← keyText k
    let value ← v.tree
    return (key, value) :: (← entriesOf rest)

end

def faultOf : Decoded α → Option DecodeFault
  | .ok _ => none
  | .error f => some f

/-- The fault of a node that stands at the very beginning of the text. -/
def Node.faultAtStart? (n : Node) : Option DecodeFault :=
  match n with
  | .scalar text plain tag true => faultOf (scalarTree text plain tag)
  | .list _ tag true => faultOf (collectionTag tag)
  | .map entries tag true =>
    faultOf (collectionTag tag) <|> match entries with
      | (.list _ _ true, _) :: _ => faultOf (keyText (.list [] none true))
      | (.map _ _ true, _) :: _ => faultOf (keyText (.map [] none true))
      | _ => none
  | _ => none

/-- Reads a text that holds one document. -/
def read (text : String) : Except DocumentFault Tree :=
  match (tokens? text).bind document? with
  | none => .error .malformed
  | some d =>
    match d.root.faultAtStart?, d.root.tree with
    | some f, _ => .error (.atStart f)
    | none, .ok t => if d.complete then .ok t else .error .malformed
    | none, .error _ => .error .malformed

end Bitpress.Yaml
