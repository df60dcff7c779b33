import Bitpress.Number.Shortest

/-!
The numbers of data trees: whole numbers from the least signed to the greatest
unsigned 64-bit one, and binary floating point numbers.
-/

/-! ### Layouts

How the digits of a number are laid out: with a point among them, or with a
power of ten behind them. -/

namespace Bitpress

/-- The choices of one written form of numbers. -/
structure RealLayout where
  /-- Where the point may stand, counted from the first digit, for a form without power of ten. -/
  positional : Int → Bool
  /-- Whether a power of ten that is not negative has a plus sign. -/
  plusSign : Bool

namespace RealLayout

/-- Data formats write a power of ten below `10 ^ -5` and from `10 ^ 16` on. -/
def data : RealLayout := ⟨fun p => -5 < p && p ≤ 16, true⟩

/-- As `data`, without a plus sign before the power of ten. -/
def plainData : RealLayout := { data with plusSign := false }

/-- Running text never has a power of ten. -/
def running : RealLayout := ⟨fun _ => true, false⟩

/-- Inspected values have a power of ten below `10 ^ -4` and from `10 ^ 16` on. -/
def inspected : RealLayout := ⟨fun p => -4 < p && p ≤ 16, false⟩

def zeros (n : Nat) : List Char := List.replicate n '0'

/-- The digits `ds` with the point after the first `point` of them. -/
def placed (ds : List Char) (point : Int) : List Char :=
  if point ≤ 0 then ['0', '.'] ++ zeros (-point).toNat ++ ds
  else
    let n := point.toNat
    if ds.length ≤ n then ds ++ zeros (n - ds.length) ++ ['.', '0']
    else ds.take n ++ ['.'] ++ ds.drop n

def powered (plusSign : Bool) (ds : List Char) (point : Int) : List Char :=
  let e := point - 1
  let lead := match ds with
    | [] => []
    | [d] => [d]
    | d :: more => d :: '.' :: more
  lead ++ ['e'] ++ (if e < 0 then ['-'] else if plusSign then ['+'] else []) ++
    (Nat.toDigits 10 e.natAbs)

/-- The text of a finite number. -/
def textOf (layout : RealLayout) (x : Binary64) : String :=
  let sign := if x.isNegative then ['-'] else []
  if x.isZero then String.ofList (sign ++ ['0', '.', '0'])
  else
    let d := Decimal.shortest x
    let ds := Nat.toDigits 10 d.digits
    let point := (ds.length : Int) + d.exponent
    String.ofList (sign ++
      if layout.positional point then placed ds point else powered layout.plusSign ds point)

end RealLayout

/-! ### Numbers -/

inductive Number
  | int (n : Int)
  | real (x : Binary64)
deriving DecidableEq

namespace Number

def leastInt : Int := -0x8000000000000000

/-- The greatest signed whole number. -/
def greatestSigned : Int := 0x7FFFFFFFFFFFFFFF

/-- The greatest whole number. -/
def greatestInt : Int := 0xFFFFFFFFFFFFFFFF

/-- A whole number if it fits into 64 bits, else the nearest floating point number. -/
def ofInt (n : Int) : Number :=
  if leastInt ≤ n ∧ n ≤ greatestInt then .int n else .real (Binary64.ofInt n)

/-- Numbers of different kinds are different; floating point numbers are compared by value. -/
def equal : Number → Number → Bool
  | .int a, .int b => a == b
  | .real a, .real b => a.equal b
  | _, _ => false

def textWith (layout : RealLayout) : Number → String
  | .int n => toString n
  | .real x => layout.textOf x

/-- The text of a number in a data format. -/
def text (n : Number) : String := n.textWith .data

end Number

end Bitpress
