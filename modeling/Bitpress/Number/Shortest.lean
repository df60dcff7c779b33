import Bitpress.Binary64

/-!
The shortest decimal that reads back as a given number.

Every positive finite number stands for an interval of reals, those that round to
it; the ends belong to it when its significand is even. For one digit, two
digits and so on to seventeen the two neighbours of the number on that decimal
grid are tested against the interval. The first grid with a hit wins, and of two
hits the nearer.
-/

namespace Bitpress

/-- A decimal `digits * 10 ^ exponent`. -/
structure Decimal where
  digits : Nat
  exponent : Int
deriving DecidableEq

namespace Decimal

/-- The same decimal without zeros at the end of its digits; `fuel` bounds their number. -/
def stripZeros (d : Decimal) : (fuel : Nat) → Decimal
  | 0 => d
  | fuel + 1 =>
    if d.digits ≠ 0 ∧ d.digits % 10 = 0 then stripZeros ⟨d.digits / 10, d.exponent + 1⟩ fuel
    else d

/-- The reals that round to one number, in units of `unitNum / unitDen`. -/
structure Interval where
  low : Nat
  value : Nat
  high : Nat
  closed : Bool
  unitNum : Nat
  unitDen : Nat

def Interval.ofMagnitude (m : Binary64.Magnitude) : Interval :=
  let below := if m.significand = 0x10000000000000 ∧ -1074 < m.exponent then 1 else 2
  { low := 4 * m.significand - below
    value := 4 * m.significand
    high := 4 * m.significand + 2
    closed := m.significand % 2 = 0
    unitNum := Nat.pow 2 m.exponent.toNat
    unitDen := 4 * Nat.pow 2 (-m.exponent).toNat }

/-- Whether `d * gridNum / gridDen` lies in the interval. -/
def Interval.holds (i : Interval) (d gridNum gridDen : Nat) : Bool :=
  let x := d * gridNum * i.unitDen
  let low := i.low * i.unitNum * gridDen
  let high := i.high * i.unitNum * gridDen
  if i.closed then low ≤ x && x ≤ high else low < x && x < high

/-- The hit of the grid of `10 ^ e` that is nearest to the number, if there is one. -/
def Interval.onGrid? (i : Interval) (e : Int) : Option Decimal :=
  let gridNum := Nat.pow 10 e.toNat
  let gridDen := Nat.pow 10 (-e).toNat
  let num := i.value * i.unitNum * gridDen
  let den := i.unitDen * gridNum
  let down := num / den
  let rest := num % den
  let up := down + 1
  match i.holds down gridNum gridDen && down != 0, i.holds up gridNum gridDen with
  | true, true =>
    some ⟨if 2 * rest < den || (2 * rest == den && down % 2 == 0) then down else up, e⟩
  | true, false => some ⟨down, e⟩
  | false, true => some ⟨up, e⟩
  | false, false => none

/-- The place of the point: the number lies between `10 ^ (p - 1)` and `10 ^ p`. -/
def Interval.point (i : Interval) : Int :=
  (Binary64.countDigits (i.value * i.unitNum * Nat.pow 10 400 / i.unitDen) : Int) - 400

def Interval.search (i : Interval) (point : Int) (digits : Nat) : (more : Nat) → Decimal
  | 0 => ⟨0, 0⟩
  | more + 1 =>
    match i.onGrid? (point - digits) with
    | some d => d.stripZeros 20
    | none => i.search point (digits + 1) more

/-- The shortest decimal for the size of a finite number; zero for zero. -/
def shortest (x : Binary64) : Decimal :=
  if x.isZero then ⟨0, 0⟩
  else
    let i := Interval.ofMagnitude x.magnitude
    i.search i.point 1 17

end Decimal

end Bitpress
