import Bitpress.Shell.Desk

/-! Conditions on files, texts and numbers. -/

namespace Bitpress.Shell.Condition

/-- A condition on one operand. -/
def unary? (d : Desk) (operator operand : String) : Option Bool :=
  let p := d.locate operand
  match operator with
  | "-n" => some (operand != "")
  | "-z" => some (operand == "")
  | "-e" | "-r" | "-w" => some (d.files.isThere p)
  | "-f" => some (d.files.isFile p)
  | "-d" | "-x" => some (d.files.isDirectory p)
  | "-s" => some (d.files.isDirectory p || ((d.files.content p).toOption.map fun c => c.bytes.size).any (0 < ·))
  | "-h" | "-L" => some false
  | _ => none

/-- A condition on two operands; nothing if one that has to be a number is none. -/
def binary? (left operator right : String) : Option Bool :=
  let numbers (f : Int → Int → Bool) : Option Bool := do
    return f (← left.trimAscii.toString.toInt?) (← right.trimAscii.toString.toInt?)
  match operator with
  | "=" | "==" => some (left == right)
  | "!=" => some (left != right)
  | "-eq" => numbers fun a b => a == b
  | "-ne" => numbers fun a b => a != b
  | "-lt" => numbers fun a b => a < b
  | "-le" => numbers fun a b => a ≤ b
  | "-gt" => numbers fun a b => b < a
  | "-ge" => numbers fun a b => b ≤ a
  | _ => none

/-- Reads conditions joined by "and" and "or" signs, of which "or" is the weaker. -/
def value? (d : Desk) (arguments : List String) : (fuel : Nat) → Option Bool
  | 0 => none
  | fuel + 1 =>
    let joined (i : Nat) (f : Bool → Bool → Bool) : Option Bool := do
      return f (← value? d (arguments.take i) fuel) (← value? d (arguments.drop (i + 1)) fuel)
    match arguments with
    | [] => some false
    | [a] => some (a != "")
    | ["!", a] => some (a == "")
    | [operator, a] => unary? d operator a
    | [a, operator, b] =>
      match binary? a operator b with
      | some v => some v
      | none => if a = "!" then (value? d [operator, b] fuel).map not else none
    | "!" :: rest => (value? d rest fuel).map not
    | arguments =>
      match arguments.findIdx? (· == "-o") with
      | some i => joined i or
      | none => (arguments.findIdx? (· == "-a")).bind fun i => joined i and

def test : Utility := fun arguments => do
  match value? (← get) arguments (arguments.length + 2) with
  | some true => pure ()
  | some false => Desk.fail 1 ""
  | none => Desk.fail 2 "test: unexpected operator"

/-- The same between brackets. -/
def bracket : Utility := fun arguments =>
  if arguments.getLast? = some "]" then test arguments.dropLast else Desk.fail 2 "[: missing ]"

end Bitpress.Shell.Condition
