import Bitpress.Context
import Bitpress.Template.Statement

/-!
Template values: plain data, the blocks and constants of a context, and what
templates make themselves. Some values have items that can be gone through, some
have members that are looked up by a key, some have both.
-/

namespace Bitpress.Template

/-- Functions that every template knows. -/
inductive Builtin
  | range
  | dictionary
  | attributes
  | debug
deriving DecidableEq

inductive Value
  | undefined
  | none
  | bool (b : Bool)
  | int (n : Int)
  | real (x : Binary64)
  /-- A text; a safe one is never escaped. -/
  | str (s : String) (safe : Bool)
  | list (items : List Value)
  /-- Items that are made one after the other, with a known length or without. -/
  | stream (items : List Value) (sized : Bool)
  /-- A dictionary, in order of its keys. -/
  | map (entries : List (Value × Value))
  /-- The variables of a context, in their own order. -/
  | record (entries : List (String × Value))
  /-- The items that share an attribute, with its value. -/
  | group (key : Value) (items : List Value)
  /-- The keyword arguments of a call. -/
  | keywords (entries : List (String × Value))
  | block (b : Block)
  | fragments (b : Block)
  | fragment (b : Block) (name : String)
  | bit (b : Bit)
  | constant (c : Constant)
  /-- A macro with the variables around it. -/
  | procedure (p : Procedure) (closure : Option Nat)
  | builtin (f : Builtin)
  /-- A namespace, whose attributes can be assigned to. -/
  | space (place : Nat)
  /-- The state of a loop. -/
  | loop (place : Nat)
deriving Inhabited

/-- What kind of thing a value is, in the order in which kinds are sorted. -/
inductive Kind
  | undefined
  | none
  | bool
  | number
  | text
  | sequence
  | mapping
  | stream
  | plain
deriving DecidableEq

def Kind.rank : Kind → Nat
  | .undefined => 0
  | .none => 1
  | .bool => 2
  | .number => 3
  | .text => 4
  | .sequence => 5
  | .mapping => 6
  | .stream => 7
  | .plain => 8

namespace Value

def text (s : String) : Value := .str s false

def nat (n : Nat) : Value := .int n

def ofNumber : Number → Value
  | .int n => .int n
  | .real x => .real x

def ofLiteral : Literal → Value
  | .none => .none
  | .bool b => .bool b
  | .int n => .int n
  | .real x => .real x
  | .str s => text s

def kind : Value → Kind
  | .undefined => .undefined
  | .none => .none
  | .bool _ => .bool
  | .int _ | .real _ => .number
  | .str .. => .text
  | .list _ | .group .. => .sequence
  | .stream .. => .stream
  | .builtin _ => .plain
  | _ => .mapping

def isUndefined (v : Value) : Bool := v.kind = .undefined

def isNumber (v : Value) : Bool := v.kind = .number

def isText (v : Value) : Bool := v.kind = .text

def str? : Value → Option String
  | .str s _ => some s
  | _ => Option.none

/-! ### Values of a context -/

mutual

/-- Data as a value; dictionaries are sorted. -/
def ofTree : Tree → Value
  | .null => .none
  | .bool b => .bool b
  | .num n => ofNumber n
  | .str s => text s
  | .list items => .list (ofItems items)
  | .map entries => .map ((Table.sorted (ofEntries entries)).map fun e => (text e.1, e.2))

def ofItems : List Tree → List Value
  | [] => []
  | t :: rest => ofTree t :: ofItems rest

def ofEntries : List (String × Tree) → List (String × Value)
  | [] => []
  | (k, t) :: rest => (k, ofTree t) :: ofEntries rest

end

mutual

/-- The value of a variable; the keys of its maps keep their order. -/
def ofContext : ContextValue → Value
  | .null => .none
  | .bool b => .bool b
  | .num n => ofNumber n
  | .str s => text s
  | .list items => .list (ofContextItems items)
  | .map entries => .record (ofContextEntries entries)
  | .block b context metadata => .block ⟨b, context, metadata⟩
  | .constant c => .constant c

def ofContextItems : List ContextValue → List Value
  | [] => []
  | v :: rest => ofContext v :: ofContextItems rest

def ofContextEntries : List (String × ContextValue) → List (String × Value)
  | [] => []
  | (k, v) :: rest => (k, ofContext v) :: ofContextEntries rest

end

def ofName? (s : Option String) : Option Value := s.map text

def texts (ss : List String) : Value := .list (ss.map text)

/-! ### Items and keys -/

def blockKeys : List String := ["name", "bit", "context", "metadata", "fragments"]

def constantKeys : List String := ["name", "symbol", "value", "tags"]

def procedureKeys : List String := ["name", "arguments", "caller"]

def loopKeys : List String :=
  ["index0", "index", "length", "revindex", "revindex0", "first", "last", "depth", "depth0",
    "previtem", "nextitem"]

/-- The keys of a mapping, if they can be listed. -/
def keys? : Value → Option (List Value)
  | .map entries => some (entries.map Prod.fst)
  | .record entries | .keywords entries => some (entries.map fun e => text e.1)
  | .block _ => some (blockKeys.map text)
  | .fragments b => some (b.bit.fragmentNames.map text)
  | .constant _ => some (constantKeys.map text)
  | .procedure .. => some (procedureKeys.map text)
  | .loop _ => some (loopKeys.map text)
  | _ => Option.none

/-- What going through a value yields: the items of a list, the characters of a text, the keys of a
mapping, nothing for what is undefined. -/
def items? : Value → Option (List Value)
  | .undefined | .none => some []
  | .str s _ => some (s.toList.map fun c => text (String.singleton c))
  | .list items | .stream items _ => some items
  | .group key items => some [key, .list items]
  | v => v.keys?

/-- The number of items, if it is known beforehand. -/
def length? : Value → Option Nat
  | .str s _ => some s.length
  | .list items | .stream items true => some items.length
  | .group .. => some 2
  | v => v.keys?.map List.length

/-- The length for purposes of going through a value. -/
def size? : Value → Option Nat
  | .undefined | .none => some 0
  | v => v.length?

def isTrue : Value → Bool
  | .undefined | .none => false
  | .bool b => b
  | .int n => n != 0
  | .real x => !x.isZero
  | .str s _ => s != ""
  | v => v.length? != some 0

/-! ### Numbers -/

/-- A whole number: numbers without fraction and truth values count. -/
def whole? : Value → Option Int
  | .bool b => some (if b then 1 else 0)
  | .int n => some n
  | .real x => x.whole?
  | _ => Option.none

/-- A number with a fraction; whole ones count if nothing is lost, or if that does not matter. -/
def real? (mayLose : Bool) : Value → Option Binary64
  | .bool b => some (Binary64.ofInt (if b then 1 else 0))
  | .int n =>
    let x := Binary64.ofInt n
    if mayLose || x.whole? == some n then some x else Option.none
  | .real x => some x
  | _ => Option.none

/-- Two numbers of one kind. -/
inductive Pair
  | whole (a b : Int)
  | real (a b : Binary64)

/-- Two values as numbers of one kind: with fraction if one of them has one. -/
def pair? (mayLose : Bool) (a b : Value) : Option Pair :=
  match a, b with
  | .real x, b => (b.real? mayLose).map (.real x)
  | a, .real y => (a.real? mayLose).map fun x => .real x y
  | a, b => do return .whole (← a.whole?) (← b.whole?)

/-! ### Order and equality -/

/-- The place of a floating point number in the order of all of them. -/
def rank (x : Binary64) : Int :=
  let bits := x.bits.toNat
  if bits < 0x8000000000000000 then bits else 0x7FFFFFFFFFFFFFFF - (bits : Int)

def compareNumbers (a b : Value) : Ordering :=
  match pair? false a b with
  | some (.whole m n) => compare m n
  | some (.real x y) => compare (rank x) (rank y)
  | Option.none => .eq

/-- A text that stands for what a value holds, for values that are not plain data. -/
def token : Value → String
  | .block b => b.bit.info.id.text ++ (ContextValue.map b.context).fingerprint
  | .fragments b => b.bit.info.id.text ++ "fragments"
  | .fragment b name => b.bit.info.id.text ++ "fragment " ++ name
  | .bit b => b.info.id.text
  | .constant c => c.info.id.text
  | .procedure p _ => p.name
  | .space place | .loop place => toString place
  | _ => ""

/-- The entries of plain mappings. -/
def entries? : Value → Option (List (Value × Value))
  | .map entries => some entries
  | .record entries | .keywords entries => some (entries.map fun e => (text e.1, e.2))
  | _ => Option.none

mutual

/-- The order of values: by kind first. `fuel` bounds the nesting. -/
def order (fuel : Nat) (a b : Value) : Ordering :=
  match fuel with
  | 0 => .eq
  | fuel + 1 =>
    let inside :=
      match a, b with
      | .str s _, .str t _ => Text.order s t
      | a, b =>
        match a.entries?, b.entries? with
        | some as, some bs => orderEntries fuel as bs
        | _, _ =>
          if a.kind = .sequence ∨ a.kind = .stream then
            orderItems fuel (a.items?.getD []) (b.items?.getD [])
          else if a.kind = .mapping then Text.order a.token b.token
          else compareNumbers a b
    (compare a.kind.rank b.kind.rank).then inside
termination_by (fuel, 0)

def orderItems (fuel : Nat) : List Value → List Value → Ordering
  | [], [] => .eq
  | [], _ :: _ => .lt
  | _ :: _, [] => .gt
  | a :: as, b :: bs => (order fuel a b).then (orderItems fuel as bs)
termination_by as => (fuel, as.length + 1)

def orderEntries (fuel : Nat) : List (Value × Value) → List (Value × Value) → Ordering
  | [], [] => .eq
  | [], _ :: _ => .lt
  | _ :: _, [] => .gt
  | (j, a) :: as, (k, b) :: bs =>
    ((order fuel j k).then (order fuel a b)).then (orderEntries fuel as bs)
termination_by as => (fuel, as.length + 1)

end

/-- How deep values may nest for comparisons. -/
def deepest : Nat := 2000

def comparison (a b : Value) : Ordering := order deepest a b

/-- The value at a key that equals the given one. -/
def entryAt? (same : Value → Bool) (entries : List (Value × Value)) : Option Value :=
  (entries.find? fun e => same e.1).map Prod.snd

mutual

/-- Whether two values are equal: numbers by value, mappings whatever their order. -/
def same (fuel : Nat) (a b : Value) : Bool :=
  match fuel with
  | 0 => false
  | fuel + 1 =>
    match a, b with
    | .undefined, .undefined | .none, .none => true
    | .str s _, .str t _ => s == t
    | a, b =>
      match a.entries?, b.entries? with
      | some as, some bs => as.length == bs.length && sameEntries fuel as bs
      | _, _ =>
        if (a.kind = .sequence ∨ a.kind = .stream) ∧ (b.kind = .sequence ∨ b.kind = .stream) then
          sameItems fuel (a.items?.getD []) (b.items?.getD [])
        else if a.kind = .mapping ∧ b.kind = .mapping then a.token == b.token && a.token != ""
        else
          match pair? false a b with
          | some (.whole m n) => m == n
          | some (.real x y) => x.equal y
          | Option.none => false
termination_by (fuel, 0)

def sameItems (fuel : Nat) : List Value → List Value → Bool
  | [], [] => true
  | a :: as, b :: bs => same fuel a b && sameItems fuel as bs
  | _, _ => false
termination_by as => (fuel, as.length + 1)

def sameEntries (fuel : Nat) : List (Value × Value) → List (Value × Value) → Bool
  | [], _ => true
  | (k, a) :: as, bs =>
    (match entryAt? (same fuel k) bs with
      | some b => same fuel a b
      | Option.none => false) && sameEntries fuel as bs
termination_by as => (fuel, as.length + 1)

end

def equal (a b : Value) : Bool := same deepest a b

/-- Puts an entry into a dictionary, in order of the keys; a key that is there gets the new value. -/
def putEntry (entries : List (Value × Value)) (key value : Value) : List (Value × Value) :=
  match entries with
  | [] => [(key, value)]
  | (k, v) :: rest =>
    match comparison key k with
    | .lt => (key, value) :: (k, v) :: rest
    | .eq => (k, value) :: rest
    | .gt => (k, v) :: putEntry rest key value

def ofPairs (entries : List (Value × Value)) : Value :=
  .map (entries.foldl (fun acc e => putEntry acc e.1 e.2) [])

/-- A dictionary of names. -/
def ofTable (t : Table Value) : Value := .map ((t.sorted).map fun e => (text e.1, e.2))

/-! ### Members -/

/-- A place in a list of known length, counted from the end if it is negative. -/
def place? (index : Int) (length : Option Nat) : Option Nat :=
  if 0 ≤ index then some index.toNat
  else length.bind fun n => if index.natAbs ≤ n then some (n - index.natAbs) else Option.none

/-- A member of a bit: its own ones before its metadata. -/
def bitMember? (b : Bit) (key : String) : Option Value :=
  if key = "name" then ofName? b.info.name
  else if key = "id" then some (text b.info.id.text)
  else if key = "tags" then some (texts b.info.tags)
  else if key = "fragments" then some (texts b.fragmentNames)
  else (b.info.metadata.valueAt? key).map ofTree

def blockMember? (b : Block) (key : String) : Option Value :=
  if key = "name" then ofName? b.bit.info.name
  else if key = "bit" then some (.bit b.bit)
  else if key = "context" then some (.record (ofContextEntries b.context))
  else if key = "metadata" then some (ofTree (.map b.metadata))
  else if key = "fragments" then some (.fragments b)
  else Option.none

def constantMember? (c : Constant) (key : String) : Option Value :=
  if key = "name" then ofName? c.info.name
  else if key = "symbol" then some (text c.symbol)
  else if key = "value" then some (text c.value)
  else if key = "tags" then some (texts c.info.tags)
  else Option.none

def procedureMember? (p : Procedure) (key : String) : Option Value :=
  if key = "name" then some (text p.name)
  else if key = "arguments" then some (texts (p.parameters.map Parameter.name))
  else Option.none

/-- The member of a value with a key, if there is one. -/
def member? (v : Value) (key : Value) : Option Value :=
  match v with
  | .map entries => entryAt? (fun k => comparison key k == .eq) entries
  | .record entries | .keywords entries => key.str?.bind (Table.valueAt? entries)
  | .block b => key.str?.bind (blockMember? b)
  | .fragments b =>
    key.str?.bind fun k => if b.bit.fragmentNames.contains k then some (.fragment b k) else Option.none
  | .fragment _ name => if key.str? = some "name" then some (text name) else Option.none
  | .bit b => key.str?.bind (bitMember? b)
  | .constant c => key.str?.bind (constantMember? c)
  | .procedure p _ => key.str?.bind (procedureMember? p)
  | .group groupKey items =>
    match key.str? with
    | some "grouper" => some groupKey
    | some "list" => some (.list items)
    | some _ => Option.none
    | Option.none => (key.whole?.bind (place? · (some 2))).bind ([groupKey, .list items][·]?)
  | .list items => (key.whole?.bind (place? · (some items.length))).bind (items[·]?)
  | .stream items _ => (key.whole?.bind (place? · Option.none)).bind (items[·]?)
  | .str s _ =>
    (key.whole?.bind (place? · (some s.length))).bind fun i =>
      (s.toList[i]?).map fun c => text (String.singleton c)
  | _ => Option.none

/-- The member of a value with a key; a missing one is undefined, and what is undefined has none. -/
def memberOf (v key : Value) : Except TemplateFault Value :=
  if v.isUndefined then .error .undefinedValue else .ok ((v.member? key).getD .undefined)

/-- Follows a path of attributes and places, with dots between them. -/
def memberAlong (v : Value) (path : String) : Except TemplateFault Value :=
  (Text.split '.' path).foldlM (fun v part =>
    match part.toNat? with
    | some n => if part.all Char.isDigit then v.memberOf (nat n) else v.memberOf (text part)
    | Option.none => v.memberOf (text part)) v

end Value

end Bitpress.Template
