/-!
Binary floating point numbers of 64 bits: their words, the rounding of exact
ratios and decimals to them, and the arithmetic that templates use.

A finite number is a whole `significand` times a power of two; `ofRatio` finds
the number nearest to a ratio of natural numbers, a tie going to the even
significand.
-/

namespace Bitpress

structure Binary64 where
  bits : UInt64
deriving DecidableEq, Inhabited

namespace Binary64

/-- A magnitude `significand * 2 ^ exponent`. -/
structure Magnitude where
  significand : Nat
  exponent : Int
deriving DecidableEq

def isNegative (x : Binary64) : Bool := x.bits >>> 63 == 1

def exponentField (x : Binary64) : Nat := ((x.bits >>> 52) &&& 0x7FF).toNat

def fraction (x : Binary64) : Nat := (x.bits &&& 0xFFFFFFFFFFFFF).toNat

def isNaN (x : Binary64) : Bool := x.exponentField == 2047 && x.fraction != 0

def isInfinite (x : Binary64) : Bool := x.exponentField == 2047 && x.fraction == 0

def isFinite (x : Binary64) : Bool := x.exponentField != 2047

def isZero (x : Binary64) : Bool := x.exponentField == 0 && x.fraction == 0

/-- The size of a finite number, without its sign. -/
def magnitude (x : Binary64) : Magnitude :=
  if x.exponentField = 0 then ⟨x.fraction, -1074⟩
  else ⟨x.fraction + 0x10000000000000, (x.exponentField : Int) - 1075⟩

def ofWord (negative : Bool) (word : Nat) : Binary64 :=
  ⟨UInt64.ofNat (word + if negative then 0x8000000000000000 else 0)⟩

def zero : Binary64 := ofWord false 0

def infinity (negative : Bool) : Binary64 := ofWord negative 0x7FF0000000000000

def nan : Binary64 := ofWord false 0x7FF8000000000000

/-- The quotient to the nearest whole number, a half going to the even one. -/
def roundedQuotient (num den : Nat) : Nat :=
  let q := num / den
  let r := num % den
  if 2 * r < den then q else if den < 2 * r then q + 1 else q + q % 2

/-- The quotient of `num` by `den * 2 ^ e`, before rounding, as a fraction of natural numbers. -/
def scaled (num den : Nat) (e : Int) : Nat × Nat :=
  if 0 ≤ e then (num, den * Nat.pow 2 e.toNat) else (num * Nat.pow 2 (-e).toNat, den)

/-- The number nearest to `num / den`, infinite when that is beyond the largest finite number. -/
def ofRatio (negative : Bool) (num den : Nat) : Binary64 :=
  if num = 0 then ofWord negative 0
  else
    let guess : Int := (num.log2 : Int) - (den.log2 : Int) - 53
    let e := if guess < -1074 then -1074 else guess
    let (n, d) := scaled num den e
    let e := if 0x20000000000000 ≤ n / d then e + 1 else e
    let (n, d) := scaled num den e
    let q := roundedQuotient n d
    let word := if q < 0x10000000000000 then q else ((e + 1075).toNat * 0x10000000000000) + (q - 0x10000000000000)
    if 0x7FF0000000000000 ≤ word then infinity negative else ofWord negative word

def countDigits (n : Nat) : Nat := (Nat.toDigits 10 n).length

/-- The number nearest to `digits * 10 ^ exponent`. -/
def ofDecimal (negative : Bool) (digits : Nat) (exponent : Int) : Binary64 :=
  if digits = 0 then ofWord negative 0
  else if 400 < exponent + (countDigits digits : Int) then infinity negative
  else if exponent + (countDigits digits : Int) < -400 then ofWord negative 0
  else if 0 ≤ exponent then ofRatio negative (digits * Nat.pow 10 exponent.toNat) 1
  else ofRatio negative digits (Nat.pow 10 (-exponent).toNat)

def ofInt (n : Int) : Binary64 := ofRatio (n < 0) n.natAbs 1

/-- The whole number nearest to zero of those between zero and a finite number, kept apart by one. -/
def truncated (x : Binary64) : Int :=
  let m := x.magnitude
  let n : Nat :=
    if 0 ≤ m.exponent then m.significand * Nat.pow 2 m.exponent.toNat
    else m.significand / Nat.pow 2 (-m.exponent).toNat
  if x.isNegative then -(n : Int) else n

/-- The whole number that a finite number is equal to, if there is one. -/
def whole? (x : Binary64) : Option Int :=
  if !x.isFinite then none
  else
    let m := x.magnitude
    if 0 ≤ m.exponent ∨ m.significand % Nat.pow 2 (-m.exponent).toNat = 0 then some x.truncated else none

/-! ### Arithmetic -/

def toFloat (x : Binary64) : Float := Float.ofBits x.bits

def ofFloat (x : Float) : Binary64 := ⟨x.toBits⟩

def add (x y : Binary64) : Binary64 := ofFloat (x.toFloat + y.toFloat)

def sub (x y : Binary64) : Binary64 := ofFloat (x.toFloat - y.toFloat)

def mul (x y : Binary64) : Binary64 := ofFloat (x.toFloat * y.toFloat)

def div (x y : Binary64) : Binary64 := ofFloat (x.toFloat / y.toFloat)

def pow (x y : Binary64) : Binary64 := ofFloat (Float.pow x.toFloat y.toFloat)

def floor (x : Binary64) : Binary64 := ofFloat x.toFloat.floor

def neg (x : Binary64) : Binary64 := ⟨x.bits ^^^ 0x8000000000000000⟩

def abs (x : Binary64) : Binary64 := ⟨x.bits &&& 0x7FFFFFFFFFFFFFFF⟩

/-- Equality of numbers: the two zeros are equal and NaN differs from itself. -/
def equal (x y : Binary64) : Bool :=
  !x.isNaN && !y.isNaN && (x.bits == y.bits || (x.isZero && y.isZero))

/-- Whether `x < y` as numbers. -/
def less (x y : Binary64) : Bool := x.toFloat < y.toFloat

end Binary64

end Bitpress
