import Bitpress.Json.Token

/-!
Reading JSON text as a data tree. The tokens are taken one by one by a machine
that keeps the lists and maps that are still open. Of a key that is given twice
the last value counts, and at most 127 lists and maps stand inside each other.
-/

namespace Bitpress.Json

/-- A list or map that is still open: its items in reverse, or its entries and the key to fill. -/
inductive Open
  | list (done : List Tree)
  | map (done : Table Tree) (key : String)

/-- What may come next. -/
inductive Expect
  | value
  | valueOrClose
  | commaOrClose
  | key
  | keyOrClose
  | colon
  | nothing
deriving DecidableEq

structure Machine where
  opened : List Open
  expect : Expect
  result : Tree

namespace Machine

def start : Machine := ⟨[], .value, .null⟩

def deepest : Nat := 127

/-- Puts a finished value where it belongs. -/
def place (opened : List Open) (t : Tree) : Machine :=
  match opened with
  | [] => ⟨[], .nothing, t⟩
  | .list done :: more => ⟨.list (t :: done) :: more, .commaOrClose, .null⟩
  | .map done key :: more => ⟨.map (done.put key t) key :: more, .commaOrClose, .null⟩

def openValue (m : Machine) (o : Open) (expect : Expect) : Option Machine :=
  if m.opened.length < deepest then some ⟨o :: m.opened, expect, .null⟩ else none

def wantsValue (e : Expect) : Bool := e == .value || e == .valueOrClose

def step? (m : Machine) : Token → Option Machine
  | .scalar t =>
    if wantsValue m.expect then some (place m.opened t)
    else if m.expect = .key ∨ m.expect = .keyOrClose then
      match m.opened, t with
      | .map done _ :: more, .str key => some ⟨.map done key :: more, .colon, .null⟩
      | _, _ => none
    else none
  | .openList => if wantsValue m.expect then m.openValue (.list []) .valueOrClose else none
  | .openMap => if wantsValue m.expect then m.openValue (.map [] "") .keyOrClose else none
  | .colon => if m.expect = .colon then some { m with expect := .value } else none
  | .comma =>
    match m.expect, m.opened with
    | .commaOrClose, .list done :: more => some ⟨.list done :: more, .value, .null⟩
    | .commaOrClose, .map done key :: more => some ⟨.map done key :: more, .key, .null⟩
    | _, _ => none
  | .closeList =>
    match m.opened with
    | .list done :: more =>
      if m.expect = .commaOrClose ∨ m.expect = .valueOrClose then
        some (place more (.list done.reverse))
      else none
    | _ => none
  | .closeMap =>
    match m.opened with
    | .map done _ :: more =>
      if m.expect = .commaOrClose ∨ m.expect = .keyOrClose then some (place more (.map done))
      else none
    | _ => none

end Machine

/-- The tree of a token list that spells exactly one value. -/
def treeOf? (tokens : List Token) : Option Tree := do
  let m ← tokens.foldlM Machine.step? Machine.start
  if m.expect = .nothing then some m.result else none

/-- Reads a text that holds one value; none when it is malformed. -/
def read? (text : String) : Option Tree := (tokens? text).bind treeOf?

end Bitpress.Json
