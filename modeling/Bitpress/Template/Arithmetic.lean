import Bitpress.Template.Display

/-!
The operators on values. Numbers with and without fraction mix; lists and texts
can be joined and repeated. What an operator is not made for is an invalid
operation.
-/

namespace Bitpress.Template.Value

/-- A value or the fault that prevented it. -/
abbrev Reply (α : Type) := Except TemplateFault α

def refuse {α : Type} : Reply α := .error .invalidOperation

def leastWhole : Int := -0x80000000000000000000000000000000

def greatestWhole : Int := 0x7FFFFFFFFFFFFFFFFFFFFFFFFFFFFFFF

/-- A whole number within 128 bits. -/
def bounded (n : Int) : Reply Value :=
  if leastWhole ≤ n ∧ n ≤ greatestWhole then .ok (.int n) else refuse

/-- Applies an operation on whole numbers or on numbers with a fraction. -/
def arithmetic (onWhole : Int → Int → Reply Value) (onReal : Binary64 → Binary64 → Binary64)
    (a b : Value) : Reply Value :=
  match pair? true a b with
  | some (.whole m n) => onWhole m n
  | some (.real x y) => .ok (.real (onReal x y))
  | Option.none => refuse

def isListLike (v : Value) : Bool := v.kind = .sequence ∨ v.kind = .stream

def add (a b : Value) : Reply Value :=
  match a, b with
  | .str s _, .str t _ => .ok (text (s ++ t))
  | a, b =>
    if a.isListLike && b.isListLike then
      .ok (.stream (a.items?.getD [] ++ b.items?.getD []) (a.length?.isSome && b.length?.isSome))
    else arithmetic (fun m n => bounded (m + n)) Binary64.add a b

def sub (a b : Value) : Reply Value := arithmetic (fun m n => bounded (m - n)) Binary64.sub a b

/-- How often something is to be repeated. -/
def count (v : Value) : Reply Nat :=
  match v.whole? with
  | some n => if 0 ≤ n then .ok n.toNat else refuse
  | Option.none => refuse

def repeated (n : Nat) (items : List α) : List α := (List.replicate n items).flatten

def repeatItems (v times : Value) : Reply Value := do
  if v.length?.isNone then refuse
  else return .stream (repeated (← count times) (v.items?.getD [])) true

def mul (a b : Value) : Reply Value :=
  match a, b with
  | .str s _, n => do return text (String.ofList (repeated (← count n) s.toList))
  | n, .str s _ => do return text (String.ofList (repeated (← count n) s.toList))
  | a, b =>
    if a.isListLike then repeatItems a b
    else if b.isListLike then repeatItems b a
    else arithmetic (fun m n => bounded (m * n)) Binary64.mul a b

def div (a b : Value) : Reply Value :=
  match a.real? true, b.real? true with
  | some x, some y => .ok (.real (x.div y))
  | _, _ => refuse

/-- The exact remainder with the sign of the first number. -/
def realRemainder (x y : Binary64) : Binary64 :=
  if x.isNaN || y.isNaN || x.isInfinite || y.isZero then .nan
  else if y.isInfinite || x.isZero then x
  else
    let m := x.magnitude
    let n := y.magnitude
    let e := min m.exponent n.exponent
    let a := m.significand * Nat.pow 2 (m.exponent - e).toNat
    let b := n.significand * Nat.pow 2 (n.exponent - e).toNat
    let r := a % b
    if e < 0 then .ofRatio x.isNegative r (Nat.pow 2 (-e).toNat) else .ofRatio x.isNegative (r * Nat.pow 2 e.toNat) 1

/-- The quotient that leaves a remainder which is not negative. -/
def wholeQuotient (x y : Binary64) : Binary64 :=
  let q := x.div y
  let whole := if q.isNegative then q.neg.floor.neg else q.floor
  let rest := realRemainder x y
  if rest.isNegative && !rest.isZero then
    if y.isNegative then whole.add (Binary64.ofInt 1) else whole.sub (Binary64.ofInt 1)
  else whole

def divWhole (a b : Value) : Reply Value :=
  arithmetic (fun m n => if n = 0 then refuse else bounded (m / n)) wholeQuotient a b

def mod (a b : Value) : Reply Value :=
  arithmetic (fun m n => if n = 0 then refuse else bounded (m % n)) realRemainder a b

/-- A power of a whole number; `fuel` bounds the number of factors that can matter. -/
def wholePower (m n : Int) : Reply Value :=
  if n < 0 ∨ 0x100000000 ≤ n then refuse
  else if m = 0 ∨ m = 1 then .ok (.int (if n = 0 then 1 else m))
  else if m = -1 then .ok (.int (if n % 2 = 0 then 1 else -1))
  else if 128 < n then refuse
  else bounded (Int.pow m n.toNat)

def pow (a b : Value) : Reply Value := arithmetic wholePower Binary64.pow a b

def negate : Value → Reply Value
  | .int n => bounded (-n)
  | .real x => .ok (.real x.neg)
  | _ => refuse

def concat (a b : Value) : Value := text (a.shown ++ b.shown)

/-- Whether a value is in a container. -/
def isIn (v container : Value) : Reply Value :=
  match container with
  | .undefined => .ok (.bool false)
  | .str s _ => .ok (.bool (Text.contains s v.shown))
  | container =>
    match container.kind with
    | .plain => .ok (.bool false)
    | .mapping => .ok (.bool (container.member? v).isSome)
    | .sequence | .stream => .ok (.bool ((container.items?.getD []).any fun item => item.equal v))
    | _ => refuse

/-- The operators that need both of their operands. -/
def apply (op : Operator) (a b : Value) : Reply Value :=
  match op with
  | .either => .ok (if a.isTrue then a else b)
  | .both => .ok (if a.isTrue then b else a)
  | .equal => .ok (.bool (a.equal b))
  | .different => .ok (.bool (!a.equal b))
  | .less => .ok (.bool (comparison a b == .lt))
  | .lessOrEqual => .ok (.bool (comparison a b != .gt))
  | .greater => .ok (.bool (comparison a b == .gt))
  | .greaterOrEqual => .ok (.bool (comparison a b != .lt))
  | .within => isIn a b
  | .plus => add a b
  | .minus => sub a b
  | .concat => .ok (concat a b)
  | .times => mul a b
  | .quotient => div a b
  | .wholeQuotient => divWhole a b
  | .remainder => mod a b
  | .power => pow a b

/-! ### Slices -/

/-- A bound of a slice: none, or a number. -/
def bound? : Value → Reply (Option Int)
  | .none => .ok Option.none
  | v =>
    match v.whole? with
    | some n => .ok (some n)
    | Option.none => refuse

/-- Every `step`-th item from the first on. -/
def everyNth (step : Nat) (items : List α) : List α :=
  (List.range ((items.length + step - 1) / step)).filterMap fun i => items[i * step]?

/-- The items from `start` to `stop` in steps forward. Bounds below zero count from the end; one
before the beginning lies behind everything. -/
def forward (start stop : Option Int) (step : Nat) (items : List α) : List α :=
  let length := items.length
  let place (i : Int) : Option Nat :=
    if 0 ≤ i then some i.toNat else if i.natAbs ≤ length then some (length - i.natAbs) else Option.none
  match place (start.getD 0) with
  | Option.none => []
  | some first =>
    let last := match stop with
      | Option.none => length
      | some i => (place i).getD length
    everyNth step ((items.drop first).take (last - first))

/-- The items from `start` down to `stop` in steps backward. -/
def backward (start stop : Option Int) (step : Nat) (items : List α) : List α :=
  let length := items.length
  let fromEnd (i : Int) : Nat := (length + i).toNat
  let first := match start with
    | Option.none => length - 1
    | some i => if (length : Int) ≤ i then length - 1 else if 0 ≤ i then i.toNat else fromEnd i
  let last := match stop with
    | Option.none => 0
    | some i => if i < 0 then fromEnd i else i.toNat
  let many := if last = 0 then (first + step) / step else (first - last + step - 1) / step
  (List.range many).filterMap fun i => if i * step ≤ first then items[first - i * step]? else Option.none

def sliceItems (start stop : Option Int) (step : Int) (items : List α) : List α :=
  if 0 < step then forward start stop step.toNat items else backward start stop step.natAbs items

/-- A part of a text or list. -/
def slice (v start stop step : Value) : Reply Value := do
  let start ← bound? start
  let stop ← bound? stop
  let step := (← bound? step).getD 1
  if step = 0 then refuse
  else
    match v with
    | .str s _ => return text (String.ofList (sliceItems start stop step s.toList))
    | .undefined | .none => return .list []
    | v =>
      if v.isListLike then return .stream (sliceItems start stop step (v.items?.getD [])) true
      else refuse

end Bitpress.Template.Value
