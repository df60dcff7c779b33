import Bitpress.Template.Machine

/-!
Functions that every template knows, and the trees of values that are handed to a
bit.
-/

namespace Bitpress.Template

open Value (Reply refuse)

/-! ### Trees of values -/

/-- The key of an entry as a text. -/
def Value.keyText : Value → Reply String
  | .str s _ => .ok s
  | .bool b => .ok (if b then "true" else "false")
  | .int n => .ok (toString n)
  | .real x => if x.isFinite then .ok (RealLayout.plainData.textOf x) else .error .badSerialization
  | _ => .error .badSerialization

/-- A value as data, for the variables of a bit. `fuel` bounds the nesting. -/
def Value.toTree (fuel : Nat) (v : Value) : Reply Tree :=
  match fuel with
  | 0 => .error .badSerialization
  | fuel + 1 =>
    match v with
    | .undefined | .none => .ok .null
    | .bool b => .ok (.bool b)
    | .int n =>
      if Number.leastInt ≤ n ∧ n ≤ Number.greatestInt then .ok (.num (.int n))
      else .error .badSerialization
    | .real x => .ok (if x.isFinite then .num (.real x) else .null)
    | .str s _ => .ok (.str s)
    | .builtin _ => .ok (.str v.shown)
    | v =>
      if v.kind = .mapping then do
        let entries ← (v.keys?.getD []).mapM fun k => do
          return (← k.keyText, ← ((v.member? k).getD .undefined).toTree fuel)
        return .map (Table.ofPairs entries)
      else do return .list (← (v.items?.getD []).mapM (Value.toTree fuel))

/-- The keywords of a call as variables of a bit. -/
def Value.toContext (keywords : Table Value) : Reply Context :=
  keywords.mapM fun e => do return (e.1, .ofTree (← e.2.toTree Value.deepest))

/-! ### Functions -/

def longestRange : Nat := 100000

/-- The numbers from `first` on, below `last` or above it, in steps. -/
def rangeOf (first last step : Int) : Reply Value :=
  if step = 0 then refuse
  else
    let span := if 0 < step then last - first else first - last
    let count := ((span + step.natAbs - 1) / step.natAbs).toNat
    if longestRange < count then refuse
    else .ok (.list ((List.range count).map fun (i : Nat) => .int (first + step * i)))

def range : Taking Value := do
  let first ← Taking.one Taking.ofWhole
  let last ← Taking.optional Taking.ofWhole
  let step := (← Taking.optional Taking.ofWhole).getD 1
  match last with
  | some last => rangeOf first last step
  | none => rangeOf 0 first step

/-- A dictionary from another one and keywords. -/
def dictionary (args : List Value) : Reply Value := do
  let (positional, keywords) := Taking.split args
  let given ← Taking.run (Taking.optional Except.ok) positional
  let entries ← match given with
    | some v => Filter.pairs v
    | none => pure []
  return .ofPairs (entries ++ keywords.map fun e => (Value.text e.1, e.2))

def namedEntries (v : Value) : Reply (Table Value) := do
  return (← Filter.pairs v).filterMap fun e => e.1.str?.map fun s => (s, e.2)

namespace Run

/-- Calls a function that every template knows. -/
def callBuiltin (f : Builtin) (args : List Value) : Run Value := do
  match f with
  | .range => Taking.run range args
  | .dictionary => dictionary args
  | .attributes =>
    match args with
    | [] => newSpace []
    | [v] => newSpace (← namedEntries v)
    | _ => throw .tooManyArguments
  | .debug =>
    match args with
    | [v] => return .text v.shownStacked
    | vs => return .text (Value.list vs).shownStacked

/-- The methods of a loop. -/
def callLoop (place : Nat) (method : String) (args : List Value) : Run Value := do
  match method with
  | "cycle" =>
    match args with
    | [] => throw .invalidOperation
    | v :: rest => return (v :: rest)[(← roundAt place).index % args.length]?.getD v
  | "changed" => changed place args
  | _ => throw .unknownMethod

/-- How a tag turns escaping on and off. -/
def escapingOf (v : Value) (present : Escaping) : Reply Escaping :=
  match v with
  | .str "html" _ => .ok .markup
  | .str "none" _ => .ok .none
  | .bool false => .ok .none
  | .bool true => .ok (if present = .none then .markup else present)
  | _ => refuse

end Run

end Bitpress.Template
