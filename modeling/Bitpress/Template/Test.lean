import Bitpress.Template.Argument
import Bitpress.Text.CaseMap

/-!
Tests, which follow the word `is`.
-/

namespace Bitpress.Template.Test

open Value (Reply)

/-- The names of the filters that every template knows. -/
def filterNames : List String :=
  ["safe", "escape", "e", "lower", "upper", "title", "capitalize", "replace", "length", "count",
    "dictsort", "items", "reverse", "trim", "join", "split", "lines", "default", "d", "round", "abs",
    "int", "float", "attr", "first", "last", "min", "max", "sort", "list", "string", "bool", "batch",
    "slice", "sum", "indent", "select", "reject", "selectattr", "rejectattr", "map", "groupby", "unique",
    "chain", "zip", "pprint", "floor", "ceil"]

def names : List String :=
  ["undefined", "defined", "none", "safe", "escaped", "boolean", "odd", "even", "divisibleby", "number",
    "integer", "int", "float", "string", "sequence", "iterable", "mapping", "startingwith", "endingwith",
    "lower", "upper", "sameas", "eq", "equalto", "==", "ne", "!=", "lt", "lessthan", "<", "le", "<=",
    "gt", "greaterthan", ">", "ge", ">=", "in", "true", "false", "filter", "test"]

def isWhole : Value → Bool
  | .int _ => true
  | _ => false

def isReal : Value → Bool
  | .real _ => true
  | _ => false

def parity (odd : Bool) (v : Value) : Bool :=
  match v.whole? with
  | some n => (n % 2 != 0) == odd
  | none => false

def divides (v w : Value) : Bool :=
  match Value.pair? false v w with
  | some (.whole m n) => n != 0 && m % n == 0
  | some (.real x y) => (Value.realRemainder x y).isZero
  | none => false

/-- Every character is a letter of one case. -/
def allOf (mapped other : Char → List Char) (s : String) : Bool :=
  s.toList.all fun c => mapped c == [c] && other c != [c]

/-- Of the same kind and equal. -/
def identical (v w : Value) : Bool :=
  v.kind == w.kind && isWhole v == isWhole w && v.equal w

def one (p : Value → Bool) : Taking Bool := return p (← Taking.value)

def two (p : Value → Value → Bool) : Taking Bool := do
  let v ← Taking.value
  return p v (← Taking.value)

def onText (p : String → Bool) : Taking Bool := return p (← Taking.text)

def onTexts (p : String → String → Bool) : Taking Bool := do
  let s ← Taking.text
  return p s (← Taking.text)

/-- The test of a name. `filters` are the filters beside those that every template knows. -/
def named? (filters : List String) (name : String) : Option (Taking Bool) :=
  match name with
  | "undefined" => some (one Value.isUndefined)
  | "defined" => some (one fun v => !v.isUndefined)
  | "none" => some (one fun v => v.kind == .none)
  | "safe" | "escaped" => some (one Value.isSafe)
  | "boolean" => some (one fun v => v.kind == .bool)
  | "odd" => some (one (parity true))
  | "even" => some (one (parity false))
  | "divisibleby" => some (two divides)
  | "number" => some (one Value.isNumber)
  | "integer" | "int" => some (one isWhole)
  | "float" => some (one isReal)
  | "string" => some (one Value.isText)
  | "sequence" => some (one fun v => v.kind == .sequence)
  | "iterable" => some (one fun v => v.items?.isSome)
  | "mapping" => some (one fun v => v.kind == .mapping)
  | "startingwith" => some (onTexts Text.startsWith)
  | "endingwith" => some (onTexts Text.endsWith)
  | "lower" => some (onText (allOf Text.lowerChar Text.upperChar))
  | "upper" => some (onText (allOf Text.upperChar Text.lowerChar))
  | "sameas" => some (two identical)
  | "eq" | "equalto" | "==" => some (two Value.equal)
  | "ne" | "!=" => some (two fun v w => !v.equal w)
  | "lt" | "lessthan" | "<" => some (two fun v w => Value.comparison v w == .lt)
  | "le" | "<=" => some (two fun v w => Value.comparison v w != .gt)
  | "gt" | "greaterthan" | ">" => some (two fun v w => Value.comparison v w == .gt)
  | "ge" | ">=" => some (two fun v w => Value.comparison v w != .lt)
  | "in" => some do
    let v ← Taking.value
    let found ← Value.isIn v (← Taking.value)
    return found.isTrue
  | "true" => some (one fun v => v matches .bool true)
  | "false" => some (one fun v => v matches .bool false)
  | "filter" => some (return (filterNames ++ filters).contains (← Taking.one Taking.ofName))
  | "test" => some (return names.contains (← Taking.one Taking.ofName))
  | _ => none

/-- Runs a test on a value and the arguments of the test. -/
def run (filters : List String) (name : String) (args : List Value) : Reply Bool :=
  match named? filters name with
  | some test => Taking.run test args
  | none => .error .unknownTest

end Bitpress.Template.Test
