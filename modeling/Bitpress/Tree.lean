import Bitpress.Number
import Bitpress.Table

/-!
Data trees: what a registry file says before its parts are given a meaning.
Defaults, contexts, queries and compose maps are kept as trees, so that they can
be merged and patched.
-/

namespace Bitpress

inductive Tree
  | null
  | bool (b : Bool)
  | num (n : Number)
  | str (s : String)
  | list (items : List Tree)
  | map (entries : List (String × Tree))
deriving Inhabited

namespace Tree

def ofTable (t : Table Tree) : Tree := .map t

def int (n : Int) : Tree := .num (.int n)

def nat (n : Nat) : Tree := .num (.int n)

def ofStrings (ss : List String) : Tree := .list (ss.map .str)

def isNull : Tree → Bool
  | .null => true
  | _ => false

def isMap : Tree → Bool
  | .map _ => true
  | _ => false

def str? : Tree → Option String
  | .str s => some s
  | _ => none

def table? : Tree → Option (Table Tree)
  | .map entries => some entries
  | _ => none

/-- The entries of a map; none for every other tree. -/
def entries (t : Tree) : Table Tree := t.table?.getD []

/-- The value of a key, if the tree is a map that has it. -/
def valueAt? (t : Tree) (key : String) : Option Tree :=
  match t with
  | .map entries => Table.valueAt? entries key
  | _ => none

mutual

/-- Equality of content: the order of the keys of a map does not matter. -/
def equal : Tree → Tree → Bool
  | .null, .null => true
  | .bool a, .bool b => a == b
  | .num a, .num b => a.equal b
  | .str a, .str b => a == b
  | .list a, .list b => equalItems a b
  | .map a, .map b => a.length == b.length && equalEntries a b
  | _, _ => false

def equalItems : List Tree → List Tree → Bool
  | [], [] => true
  | a :: as, b :: bs => a.equal b && equalItems as bs
  | _, _ => false

/-- Every entry of the first has an equal one in the second. -/
def equalEntries : List (String × Tree) → List (String × Tree) → Bool
  | [], _ => true
  | (k, a) :: rest, bs =>
    (match Table.valueAt? bs k with
      | some b => a.equal b
      | none => false) && equalEntries rest bs

end

/-- Whether a value counts as there: not null and not empty. -/
def isPresent : Tree → Bool
  | .null => false
  | .bool _ => true
  | .num _ => true
  | .str s => s != ""
  | .list items => !items.isEmpty
  | .map entries => !entries.isEmpty

/-- The text of a scalar, for comparisons that do not tell `1` from `"1"`. -/
def scalarText? : Tree → Option String
  | .str s => some s
  | .num n => some n.text
  | .bool b => some (if b then "true" else "false")
  | _ => none

mutual

/-- The nesting depth: 0 for scalars. -/
def depth : Tree → Nat
  | .list items => depthItems items + 1
  | .map entries => depthEntries entries + 1
  | _ => 0

def depthItems : List Tree → Nat
  | [] => 0
  | t :: rest => Nat.max t.depth (depthItems rest)

def depthEntries : List (String × Tree) → Nat
  | [] => 0
  | (_, t) :: rest => Nat.max t.depth (depthEntries rest)

end

end Tree

end Bitpress
