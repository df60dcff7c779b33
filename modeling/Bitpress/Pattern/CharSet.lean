import Bitpress.Text.Basic
import Bitpress.Text.Property
import Bitpress.Text.Utf8

/-!
Sets of characters, as patterns describe them, and the states that an automaton needs
to read one of their characters from its bytes.
-/

namespace Bitpress

inductive CharSet
  | ranges (rs : List (Nat × Nat))
  | property (e : Text.Extent)
  | space
  | word
  | anything
  | nothing
  | union (a b : CharSet)
  | inter (a b : CharSet)
  | diff (a b : CharSet)
  | symm (a b : CharSet)
  | complement (a : CharSet)
  /-- The characters that differ in case only from one of the set; only the case of ASCII letters counts, if `ascii`. -/
  | anyCase (ascii : Bool) (a : CharSet)
  /-- A class in brackets of its own. -/
  | bracketed (a : CharSet)
deriving Inhabited

namespace CharSet

def range (low high : Nat) : CharSet := .ranges [(low, high)]

def single (c : Char) : CharSet := range c.toNat c.toNat

def category (cs : List Text.Category) : CharSet := .property ⟨cs, [], []⟩

def spaces : List (Nat × Nat) :=
  [(0x9, 0xD), (0x20, 0x20), (0x85, 0x85), (0xA0, 0xA0), (0x1680, 0x1680), (0x2000, 0x200A), (0x2028, 0x2029),
    (0x202F, 0x202F), (0x205F, 0x205F), (0x3000, 0x3000)]

/-- Letters, marks, digits and what joins them, with letters in circles and squares. -/
def words : Text.Extent where
  categories := [.lu, .ll, .lt, .lm, .lo, .mn, .mc, .me, .nd, .nl, .pc]
  more := [(0x200C, 0x200D), (0x24B6, 0x24E9), (0x1F130, 0x1F149), (0x1F150, 0x1F169), (0x1F170, 0x1F189)]
  less := []

def isWordAscii (c : Char) : Bool := c.isAlphanum || c == '_'

def isWord (c : Char) : Bool := if c.toNat < 128 then isWordAscii c else words.contains c

/-- The characters that may stand for `c` when case does not matter. -/
def variants (ascii : Bool) (c : Char) : List Char :=
  if ascii then [c, c.toLower, c.toUpper] else Text.caseVariants c

def contains : CharSet → Char → Bool
  | .ranges rs, c => Text.Extent.within c.toNat rs
  | .property e, c => e.contains c
  | .space, c => Text.isBlank c
  | .word, c => isWord c
  | .anything, _ => true
  | .nothing, _ => false
  | .union a b, c => a.contains c || b.contains c
  | .inter a b, c => a.contains c && b.contains c
  | .diff a b, c => a.contains c && !b.contains c
  | .symm a b, c => a.contains c != b.contains c
  | .complement a, c => !a.contains c
  | .anyCase ascii a, c => (variants ascii c).any a.contains
  | .bracketed a, c => a.contains c

/-! ### Named sets -/

/-- The characters of the classes that have names in brackets with colons. -/
def ofClassName? : String → Option CharSet
  | "alnum" => some (.ranges [(48, 57), (65, 90), (97, 122)])
  | "alpha" => some (.ranges [(65, 90), (97, 122)])
  | "ascii" => some (range 0 127)
  | "blank" => some (.ranges [(9, 9), (32, 32)])
  | "cntrl" => some (.ranges [(0, 31), (127, 127)])
  | "digit" => some (range 48 57)
  | "graph" => some (range 33 126)
  | "lower" => some (range 97 122)
  | "print" => some (range 32 126)
  | "punct" => some (.ranges [(33, 47), (58, 64), (91, 96), (123, 126)])
  | "space" => some (.ranges [(9, 13), (32, 32)])
  | "upper" => some (range 65 90)
  | "word" => some (.ranges [(48, 57), (65, 90), (95, 95), (97, 122)])
  | "xdigit" => some (.ranges [(48, 57), (65, 70), (97, 102)])
  | _ => none

/-- The names of properties without case, separators and an `is` in front. -/
def looseName (s : String) : String :=
  let plain (cs : List Char) : List Char :=
    (cs.filter fun c => c != ' ' && c != '_' && c != '-' && c.toNat < 128).map Char.toLower
  let name := plain s.toList
  if plain (s.toList.take 2) = ['i', 's'] then
    -- The short name of ISO comments begins with these letters itself.
    if name = ['i', 's', 'c'] then "isc" else String.ofList (name.drop 2)
  else String.ofList name

/-- General categories and their groups by name. -/
def categories? (name : String) : Option (List Text.Category) :=
  let all := Text.Category.named.map Prod.snd
  match name with
  | "l" | "letter" => some (all.filter (·.isLetter))
  | "lc" | "casedletter" => some [.lu, .ll, .lt]
  | "m" | "mark" | "combiningmark" => some (all.filter (·.isMark))
  | "n" | "number" => some (all.filter (·.isNumber))
  | "p" | "punctuation" | "punct" => some (all.filter (·.isPunctuation))
  | "s" | "symbol" => some (all.filter (·.isSymbol))
  | "z" | "separator" => some (all.filter (·.isSeparator))
  | "c" | "other" => some (all.filter (·.isOther))
  | "uppercaseletter" => some [.lu]
  | "lowercaseletter" => some [.ll]
  | "titlecaseletter" => some [.lt]
  | "modifierletter" => some [.lm]
  | "otherletter" => some [.lo]
  | "nonspacingmark" => some [.mn]
  | "spacingmark" => some [.mc]
  | "enclosingmark" => some [.me]
  | "decimalnumber" | "digit" => some [.nd]
  | "letternumber" => some [.nl]
  | "othernumber" => some [.no]
  | "connectorpunctuation" => some [.pc]
  | "dashpunctuation" => some [.pd]
  | "openpunctuation" => some [.ps]
  | "closepunctuation" => some [.pe]
  | "initialpunctuation" => some [.pi]
  | "finalpunctuation" => some [.pf]
  | "otherpunctuation" => some [.po]
  | "mathsymbol" => some [.sm]
  | "currencysymbol" => some [.sc]
  | "modifiersymbol" => some [.sk]
  | "othersymbol" => some [.so]
  | "spaceseparator" => some [.zs]
  | "lineseparator" => some [.zl]
  | "paragraphseparator" => some [.zp]
  | "control" | "cntrl" => some [.cc]
  | "format" => some [.cf]
  | "privateuse" => some [.co]
  | "unassigned" => some [.cn]
  | _ => (Text.Category.named.find? fun e => looseName e.1 == name).map fun e => [e.2]

/-- The category or group of categories with a name, or all of them, those in use or the ASCII characters. -/
def ofCategoryName? (name : String) : Option CharSet :=
  match name with
  | "any" => some .anything
  | "assigned" => some (.complement (category [.cn]))
  | "ascii" => some (range 0 127)
  | _ => (categories? name).map category

def ofScriptName? (name : String) : Option CharSet := (Text.Extent.named? Text.Property.scripts name).map .property

/-- The property, category or script with a name. A few short names mean categories, though properties have them too. -/
def ofPropertyName? (written : String) : Option CharSet :=
  let name := looseName written
  let binary := if name ∈ ["cf", "sc", "lc"] then none else Text.Extent.named? Text.Property.binary name
  (binary.map .property).orElse fun _ => (ofCategoryName? name).orElse fun _ => ofScriptName? name

/-- The characters with a value of a property, written `name=value`. -/
def ofPropertyValue? (property value : String) : Option CharSet :=
  match looseName property with
  | "gc" | "generalcategory" => ofCategoryName? (looseName value)
  | "sc" | "script" | "scx" | "scriptextensions" => ofScriptName? (looseName value)
  | _ => none

/-! ### Code points

The code points of a set are given by its edges: where it begins and where it ends, in turn and in order. -/

/-- The edges of what `op` makes of two sets; `left` and `right` tell whether the code points before are in them. -/
def mergeEdges (op : Bool → Bool → Bool) (left right : Bool) (xs ys : List Nat) : (fuel : Nat) → List Nat
  | 0 => []
  | fuel + 1 =>
    match (xs.take 1 ++ ys.take 1).min? with
    | none => []
    | some edge =>
      let (left', xs) := if xs.head? = some edge then (!left, xs.tail) else (left, xs)
      let (right', ys) := if ys.head? = some edge then (!right, ys.tail) else (right, ys)
      let rest := mergeEdges op left' right' xs ys fuel
      if op left' right' = op left right then rest else edge :: rest

def combine (op : Bool → Bool → Bool) (xs ys : List Nat) : List Nat :=
  mergeEdges op false false xs ys (xs.length + ys.length + 1)

def edgesOfRanges (rs : List (Nat × Nat)) : List Nat :=
  rs.foldl (fun acc (low, high) => combine (· || ·) acc [low, high + 1]) []

/-- The edges of a set from the places where it may begin or end. -/
def edgesFrom (inside : Bool) : List (Nat × Bool) → List Nat
  | [] => if inside then [0x110000] else []
  | (place, holds) :: rest =>
    if holds = inside then edgesFrom inside rest else place :: edgesFrom holds rest

def edgesOfCategories (cs : List Text.Category) : List Nat :=
  edgesFrom false (Text.Category.runs.toList.flatMap fun run =>
    match run.category with
    | some c => [(run.start, cs.contains c)]
    | none => (List.range run.length).map fun i => (run.start + i, cs.contains (if i % 2 = 0 then .lu else .ll)))

def edgesOfExtent (e : Text.Extent) : List Nat :=
  combine (· || ·) (edgesOfRanges e.more)
    (combine (fun holds left => holds && !left) (edgesOfCategories e.categories) (edgesOfRanges e.less))

/-- The code points with a variant in the other case. -/
def casedCodes (ascii : Bool) : List Nat :=
  if ascii then List.range 128
  else Text.CaseMap.foldRuns.flatMap fun r => r.codes.flatMap fun code => [code, (r.image? code).getD code]

def edges : CharSet → List Nat
  | .ranges rs => edgesOfRanges rs
  | .property e => edgesOfExtent e
  | .space => edgesOfRanges spaces
  | .word => edgesOfExtent words
  | .anything => [0, 0x110000]
  | .nothing => []
  | .union a b => combine (· || ·) a.edges b.edges
  | .inter a b => combine (· && ·) a.edges b.edges
  | .diff a b => combine (fun x y => x && !y) a.edges b.edges
  | .symm a b => combine (· != ·) a.edges b.edges
  | .complement a => combine (· != ·) a.edges [0, 0x110000]
  | .anyCase ascii a =>
    let added := (casedCodes ascii).filter fun code =>
      (variants ascii (Char.ofNat code)).any a.contains && !a.contains (Char.ofNat code)
    combine (· || ·) a.edges (edgesOfRanges (added.map fun code => (code, code)))
  | .bracketed a => a.edges

/-! ### Size -/

/-- How many ranges two sequences begin with in common. -/
def commonLength : List (Nat × Nat) → List (Nat × Nat) → Nat
  | x :: xs, y :: ys => if x = y then commonLength xs ys + 1 else 0
  | _, _ => 0

/-- The bytes for the states of sequences of byte ranges, after `before` has got its own: each sequence is an
alternative, and begins with the states that the one before it has already. -/
def statesSize (before : List (Nat × Nat)) : List (List (Nat × Nat)) → Nat
  | [] => 0
  | s :: rest => 4 + 32 * (s.length - commonLength before s) + statesSize s rest

def rangesOfEdges : List Nat → List (Nat × Nat)
  | low :: stop :: rest => (low, stop - 1) :: rangesOfEdges rest
  | _ => []

/-- The bytes that the states for a character of a set take, as they are made for reading backwards. A single character
is read byte by byte, and a set of ASCII characters has one state for all. -/
def size (s : CharSet) : Nat :=
  let rs := rangesOfEdges s.edges
  match rs with
  | [] => 32
  | [(low, high)] =>
    if low = high then (Text.sequences low high).foldl (fun n bytes => n + 32 * bytes.length) 0
    else if high < 128 then 72
    else 64 + statesSize [] (Text.sequences low high)
  | _ =>
    if rs.all fun r => r.2 < 128 then 64 + 8 * rs.length
    else 64 + statesSize [] (rs.flatMap fun r => Text.sequences r.1 r.2)

/-- How deep the brackets of a class are nested; several items and an operation count as a level too. -/
def depth : CharSet → Nat
  | .bracketed a => a.depth + 1
  | .union .nothing a => a.depth
  | .union (.union .nothing a) b => max a.depth b.depth + 1
  | .union a b => max a.depth (b.depth + 1)
  | .inter a b => max a.depth b.depth + 1
  | .diff a b => max a.depth b.depth + 1
  | .symm a b => max a.depth b.depth + 1
  | .complement a => a.depth
  | .anyCase _ a => a.depth
  | _ => 0

end CharSet

end Bitpress
