import Bitpress.Decode
import Bitpress.Toml.Scalar

/-!
Reading TOML text. A text is a row of statements: headers, which name the table
or the list of tables that follows, and entries, whose keys may name tables in
tables. A table is defined once: by its header, by dotted keys, or inline.
-/

namespace Bitpress.Toml

/-- How a table came about. -/
inductive Origin
  /-- Named on the way to another table by a header. -/
  | passed
  | header
  | dotted
  | inline
deriving DecidableEq

inductive Value
  | scalar (s : Scalar)
  | array (items : List Value)
  | table (origin : Origin) (entries : List (String × Value))
  /-- Tables that headers in double brackets add to, the latest first. -/
  | tables (items : List (List (String × Value)))
deriving Inhabited

/-- A table in the making: how it came about, and its entries. -/
abbrev Content := Table Value

/-! ### Changing tables -/

/-- Changes the table at a path, which is made where it is missing. `made` is the origin of the tables on
the path, and dotted keys pass only tables that dotted keys or passing made. -/
def changeAt (made : Origin) (change : Origin → Content → Option Content) (origin : Origin) (t : Content) :
    (path : List String) → Option Content
  | [] => change origin t
  | key :: path =>
    match t.valueAt? key with
    | none => do return t.put key (.table made (← changeAt made change made [] path))
    | some (.table o inner) =>
      if o = .inline ∨ (made = .dotted ∧ o = .header) then none
      else do return t.put key (.table o (← changeAt made change o inner path))
    | some (.tables (latest :: older)) =>
      if made = .dotted then none
      else do return t.put key (.tables ((← changeAt made change .header latest path) :: older))
    | some _ => none

/-- Adds an entry with a dotted key to a table. -/
def addEntry? (t : Content) (origin : Origin) (keys : List String) (value : Value) : Option Content :=
  match keys.getLast? with
  | none => none
  | some key =>
    let path := keys.dropLast
    let change (o : Origin) (inner : Content) : Option Content :=
      if (!path.isEmpty && o != .dotted) || inner.hasKey key then none else some (inner.put key value)
    changeAt .dotted change origin t path

/-- Defines the table that a header names. -/
def openTable? (root : Content) (keys : List String) : Option Content :=
  match keys.getLast? with
  | none => none
  | some key =>
    let change (_ : Origin) (t : Content) : Option Content :=
      match t.valueAt? key with
      | none => some (t.put key (.table .header []))
      | some (.table .passed entries) => some (t.put key (.table .header entries))
      | some _ => none
    changeAt .passed change .header root keys.dropLast

/-- Adds a table to the list that a header in double brackets names. -/
def openItem? (root : Content) (keys : List String) : Option Content :=
  match keys.getLast? with
  | none => none
  | some key =>
    let change (_ : Origin) (t : Content) : Option Content :=
      match t.valueAt? key with
      | none => some (t.put key (.tables [[]]))
      | some (.tables items) => some (t.put key (.tables ([] :: items)))
      | some _ => none
    changeAt .passed change .header root keys.dropLast

/-- Adds an entry to the table that the latest header named. -/
def addBelow? (root : Content) (current : List String) (keys : List String) (value : Value) : Option Content :=
  changeAt .passed (fun o t => addEntry? t o keys value) .header root current

/-! ### White space -/

def isSpace (c : Char) : Bool := c == ' ' || c == '\t'

def skipSpaces (cs : List Char) : List Char := cs.dropWhile isSpace

/-- Passes a comment, if one begins here. -/
def skipComment? (cs : List Char) : Option (List Char) :=
  match cs with
  | '#' :: rest =>
    let ended := rest.dropWhile fun c => !isForbidden c
    match ended with
    | [] => some []
    | '\n' :: _ => some ended
    | '\r' :: '\n' :: _ => some ended
    | _ => none
  | cs => some cs

/-- Passes one line break or the end. -/
def lineEnd? : List Char → Option (List Char)
  | [] => some []
  | '\n' :: rest => some rest
  | '\r' :: '\n' :: rest => some rest
  | _ => none

/-- Passes white space, comments and line breaks. -/
def skipLines? (cs : List Char) : (fuel : Nat) → Option (List Char)
  | 0 => none
  | fuel + 1 => do
    let cs ← skipComment? (skipSpaces cs)
    match cs with
    | '\n' :: rest => skipLines? rest fuel
    | '\r' :: '\n' :: rest => skipLines? rest fuel
    | cs => return cs

/-! ### Keys and values -/

def isBareKeyChar (c : Char) : Bool := c.isAlphanum || c == '_' || c == '-'

def simpleKey? (cs : List Char) : Option (String × List Char) :=
  match cs with
  | '"' :: rest => line? '"' [] rest (cs.length + 1)
  | '\'' :: rest => line? '\'' [] rest (cs.length + 1)
  | cs =>
    let name := cs.takeWhile isBareKeyChar
    if name.isEmpty then none else some (String.ofList name, cs.drop name.length)

/-- Reads a key and the white space after it. -/
def key? (cs : List Char) : (fuel : Nat) → Option (List String × List Char)
  | 0 => none
  | fuel + 1 => do
    let (name, rest) ← simpleKey? cs
    match skipSpaces rest with
    | '.' :: rest => do
      let (more, rest) ← key? (skipSpaces rest) fuel
      return (name :: more, rest)
    | rest => return ([name], rest)

mutual

def value? (cs : List Char) : (fuel : Nat) → Option (Value × List Char)
  | 0 => none
  | fuel + 1 =>
    match cs with
    | '[' :: rest => do
      let (items, rest) ← items? rest fuel
      return (.array items, rest)
    | '\x7b' :: rest => do
      let (entries, rest) ← inlineEntries? [] rest fuel
      return (.table .inline entries, rest)
    | c :: _ =>
      if c = '"' ∨ c = '\'' then (string? cs).map fun (s, rest) => (.scalar (.text s), rest)
      else (bare? cs).map fun (s, rest) => (.scalar s, rest)
    | [] => none

/-- Reads the items of a list and its closing bracket. -/
def items? (cs : List Char) : (fuel : Nat) → Option (List Value × List Char)
  | 0 => none
  | fuel + 1 => do
    match ← skipLines? cs (cs.length + 1) with
    | ']' :: rest => return ([], rest)
    | cs => do
      let (v, rest) ← value? cs fuel
      match ← skipLines? rest (rest.length + 1) with
      | ',' :: rest => do
        let (more, rest) ← items? rest fuel
        return (v :: more, rest)
      | ']' :: rest => return ([v], rest)
      | _ => none

/-- Reads the entries of an inline table and its closing brace. -/
def inlineEntries? (t : Content) (cs : List Char) : (fuel : Nat) → Option (Content × List Char)
  | 0 => none
  | fuel + 1 => do
    match ← skipLines? cs (cs.length + 1) with
    | '\x7d' :: rest => return (t, rest)
    | cs => do
      let (keys, rest) ← key? cs (cs.length + 1)
      match rest with
      | '=' :: rest => do
        let (v, rest) ← value? (skipSpaces rest) fuel
        let t ← addEntry? t .header keys v
        match ← skipLines? rest (rest.length + 1) with
        | ',' :: rest => inlineEntries? t rest fuel
        | '\x7d' :: rest => return (t, rest)
        | _ => none
      | _ => none

end

/-! ### Statements -/

/-- The tables so far, and the one that entries go to. -/
structure Progress where
  root : Content := []
  current : List String := []

/-- Reads the statement at the front of a text. -/
def statement? (p : Progress) (cs : List Char) : Option (Progress × List Char) :=
  match cs with
  | '[' :: '[' :: rest => do
    let (keys, rest) ← key? (skipSpaces rest) (rest.length + 1)
    let rest ← Text.after? [']', ']'] rest
    return (⟨← openItem? p.root keys, keys⟩, rest)
  | '[' :: rest => do
    let (keys, rest) ← key? (skipSpaces rest) (rest.length + 1)
    let rest ← Text.after? [']'] rest
    return (⟨← openTable? p.root keys, keys⟩, rest)
  | cs => do
    let (keys, rest) ← key? cs (cs.length + 1)
    let rest ← Text.after? ['='] rest
    let (v, rest) ← value? (skipSpaces rest) (2 * rest.length + 2)
    return ({ p with root := ← addBelow? p.root p.current keys v }, rest)

/-- Reads all statements; each one ends its line. -/
def statements? (p : Progress) (cs : List Char) : (fuel : Nat) → Option Progress
  | 0 => none
  | fuel + 1 => do
    let cs ← skipLines? cs (cs.length + 1)
    if cs.isEmpty then return p
    else
      let (p, rest) ← statement? p cs
      let rest ← skipComment? (skipSpaces rest)
      statements? p (← lineEnd? rest) fuel

/-! ### Trees -/

def realName (x : Binary64) : String :=
  if x.isNaN then "NaN" else if x.isNegative then "-inf" else "inf"

def Scalar.tree : Scalar → Except DocumentFault Tree
  | .text s => .ok (.str s)
  | .integer n => .ok (.int n)
  | .real x => if x.isFinite then .ok (.num (.real x)) else .error (.notANumber (realName x))
  | .boolean b => .ok (.bool b)
  | .moment s => .ok (.str s)

/-- The data of a row of results, if all of them are data. -/
def listTree (items : List (Except DocumentFault Tree)) : Except DocumentFault Tree :=
  (items.mapM id).map .list

/-- The data of a table, with its keys in order; the first fault in this order counts. -/
def tableTree (entries : Table (Except DocumentFault Tree)) : Except DocumentFault Tree := do
  let entries ← (Table.sorted entries).mapM fun (k, r) => do return (k, ← r)
  return .map entries

mutual

/-- The data of a value. -/
def Value.tree : Value → Except DocumentFault Tree
  | .scalar s => s.tree
  | .array items => listTree (treesOf items)
  | .table _ entries => tableTree (entriesOf entries)
  | .tables items => listTree (tablesOf items).reverse

def treesOf : List Value → List (Except DocumentFault Tree)
  | [] => []
  | v :: rest => v.tree :: treesOf rest

def entriesOf : List (String × Value) → List (String × Except DocumentFault Tree)
  | [] => []
  | (k, v) :: rest => (k, v.tree) :: entriesOf rest

def tablesOf : List (List (String × Value)) → List (Except DocumentFault Tree)
  | [] => []
  | t :: rest => tableTree (entriesOf t) :: tablesOf rest

end

/-- Reads a text as a tree whose maps have their keys in order. -/
def read (text : String) : Except DocumentFault Tree :=
  let cs := match text.toList with
    | '\ufeff' :: rest => rest
    | cs => cs
  match statements? {} cs (cs.length + 1) with
  | none => .error .malformed
  | some p => (Value.table .header p.root).tree

end Bitpress.Toml
