import Bitpress.Text.Cut

/-!
Whole-number arithmetic in scripts. Operators of one strength are applied from the
left; comparisons give one or zero.
-/

namespace Bitpress.Shell.Arithmetic

inductive Token
  | number (n : Int)
  | name (s : String)
  | sign (s : String)
deriving DecidableEq

def signs : List String :=
  ["&&", "||", "==", "!=", "<=", ">=", "<", ">", "+", "-", "*", "/", "%", "(", ")", "!"]

def tokens? (cs : List Char) : (fuel : Nat) → Option (List Token)
  | 0 => none
  | fuel + 1 =>
    match cs with
    | [] => some []
    | c :: rest =>
      if c = ' ' ∨ c = '\t' ∨ c = '\n' then tokens? rest fuel
      else if c.isDigit then
        (tokens? (cs.dropWhile Char.isDigit) fuel).map
          (.number ((String.ofList (cs.takeWhile Char.isDigit)).toNat?.getD 0) :: ·)
      else if c.isAlpha ∨ c = '_' then
        let isPart (c : Char) : Bool := c.isAlphanum || c == '_'
        (tokens? (cs.dropWhile isPart) fuel).map (.name (String.ofList (cs.takeWhile isPart)) :: ·)
      else do
        let (s, rest) ← signs.findSome? fun s => (Text.after? s.toList cs).map fun rest => (s, rest)
        (tokens? rest fuel).map (.sign s :: ·)

/-- The binary operators from the weakest to the strongest. -/
def strengths : List (List String) :=
  [["||"], ["&&"], ["==", "!="], ["<=", ">=", "<", ">"], ["+", "-"], ["*", "/", "%"]]

def ofBool (b : Bool) : Int := if b then 1 else 0

def combine? (sign : String) (a b : Int) : Option Int :=
  match sign with
  | "||" => some (ofBool (a != 0 || b != 0))
  | "&&" => some (ofBool (a != 0 && b != 0))
  | "==" => some (ofBool (a == b))
  | "!=" => some (ofBool (a != b))
  | "<=" => some (ofBool (a ≤ b))
  | ">=" => some (ofBool (b ≤ a))
  | "<" => some (ofBool (a < b))
  | ">" => some (ofBool (b < a))
  | "+" => some (a + b)
  | "-" => some (a - b)
  | "*" => some (a * b)
  | "/" => if b = 0 then none else some (a.tdiv b)
  | "%" => if b = 0 then none else some (a.tmod b)
  | _ => none

mutual

def operand? (value : String → Int) (ts : List Token) : (fuel : Nat) → Option (Int × List Token)
  | 0 => none
  | fuel + 1 =>
    match ts with
    | .number n :: rest => some (n, rest)
    | .name s :: rest => some (value s, rest)
    | .sign "-" :: rest => (operand? value rest fuel).map fun (n, rest) => (-n, rest)
    | .sign "+" :: rest => operand? value rest fuel
    | .sign "!" :: rest => (operand? value rest fuel).map fun (n, rest) => (ofBool (n == 0), rest)
    | .sign "(" :: rest => do
      match ← level? value strengths rest fuel with
      | (n, .sign ")" :: rest) => some (n, rest)
      | _ => none
    | _ => none

def level? (value : String → Int) (levels : List (List String)) (ts : List Token) :
    (fuel : Nat) → Option (Int × List Token)
  | 0 => none
  | fuel + 1 =>
    match levels with
    | [] => operand? value ts fuel
    | signs :: stronger => do
      let (left, rest) ← level? value stronger ts fuel
      continued? value signs stronger left rest fuel

def continued? (value : String → Int) (signs : List String) (stronger : List (List String)) (left : Int)
    (ts : List Token) : (fuel : Nat) → Option (Int × List Token)
  | 0 => none
  | fuel + 1 =>
    match ts with
    | .sign s :: rest =>
      if signs.contains s then do
        let (right, rest) ← level? value stronger rest fuel
        continued? value signs stronger (← combine? s left right) rest fuel
      else some (left, ts)
    | ts => some (left, ts)

end

/-- The value of an expression, given those of its variables. -/
def value? (value : String → Int) (source : List Char) : Option Int := do
  let ts ← tokens? source (source.length + 1)
  if ts = [] then some 0
  else
    match ← level? value strengths ts (16 * ts.length + 16) with
    | (n, []) => some n
    | _ => none

end Bitpress.Shell.Arithmetic
