import Bitpress.Number
import Bitpress.Tree

/-!
The tokens of JSON text. `tokens?` reads a whole text; it has none when some part
of the text is no token.
-/

/-! ### Decimals

Decimal numbers as data text spells them, and the fast reading of them: the
digits that fit into 64 bits are one whole number, which is then multiplied or
divided once by a power of ten. The result may be a neighbour of the nearest
number. -/

namespace Bitpress

/-- The digits of a decimal: a sign, the whole part, the places and the power of ten. -/
structure Spelled where
  negative : Bool
  whole : List Nat
  places : Option (List Nat)
  power : Option Int

namespace Spelled

def greatestWord : Nat := 0xFFFFFFFFFFFFFFFF

/-- Takes digits while the number they form fits into 64 bits; gives it with how many were taken. -/
def takeDigits (n taken : Nat) : List Nat → Nat × Nat
  | [] => (n, taken)
  | d :: ds => if n * 10 + d ≤ greatestWord then takeDigits (n * 10 + d) (taken + 1) ds else (n, taken)

def greatestPower : Nat := 0x7FFFFFFF

/-- Divides by `10 ^ power`, in steps that powers of ten can express. -/
def dividedBy (x : Binary64) (power : Nat) : Binary64 :=
  if power ≤ 308 then x.div (.ofDecimal false 1 power)
  else if x.isZero then x
  else dividedBy (x.div (.ofDecimal false 1 308)) (power - 308)
termination_by power

/-- The digits scaled by a power of ten; none when the number is too large. -/
def scaled? (significand : Nat) (power : Int) : Option Binary64 :=
  let x := Binary64.ofInt significand
  if power < 0 then some (dividedBy x power.natAbs)
  else if 308 < power then if x.isZero then some x else none
  else
    let y := x.mul (.ofDecimal false 1 power)
    if y.isInfinite then none else some y

/-- The number that a spelling stands for; none when it is too large. A whole number that 64 bits
cannot hold, and minus zero, are floating point numbers. -/
def number? (s : Spelled) : Option Number :=
  let (n, taken) := takeDigits 0 0 s.whole
  let signed (x : Binary64) : Number := .real (if s.negative then x.neg else x)
  if taken = s.whole.length ∧ s.places = none ∧ s.power = none then
    if ¬ s.negative then some (.int n)
    else if n ≠ 0 ∧ n ≤ 0x8000000000000000 then some (.int (-(n : Int)))
    else some (signed (.ofInt n))
  else
    let (n, used) := takeDigits n 0 (s.places.getD [])
    let start : Int := ((s.whole.length - taken : Nat) : Int) - used
    let power := s.power.getD 0
    if greatestPower < power.natAbs then
      if n ≠ 0 ∧ 0 < power then none else some (signed .zero)
    else (scaled? n (start + power)).map signed

end Spelled

end Bitpress

/-! ### Tokens -/

namespace Bitpress.Json

inductive Token
  | openList
  | closeList
  | openMap
  | closeMap
  | comma
  | colon
  | scalar (t : Tree)

def isSpace (c : Char) : Bool := c == ' ' || c == '\t' || c == '\n' || c == '\r'

def hexValue? (c : Char) : Option Nat :=
  if '0' ≤ c ∧ c ≤ '9' then some (c.toNat - '0'.toNat)
  else if 'a' ≤ c ∧ c ≤ 'f' then some (c.toNat - 'a'.toNat + 10)
  else if 'A' ≤ c ∧ c ≤ 'F' then some (c.toNat - 'A'.toNat + 10)
  else none

def hexFour? (a b c d : Char) : Option Nat := do
  let a ← hexValue? a
  let b ← hexValue? b
  let c ← hexValue? c
  let d ← hexValue? d
  return ((a * 16 + b) * 16 + c) * 16 + d

/-- The character that a letter after a backslash stands for. -/
def unescaped? : Char → Option Char
  | '"' => some '"'
  | '\\' => some '\\'
  | '/' => some '/'
  | 'b' => some '\x08'
  | 'f' => some '\x0c'
  | 'n' => some '\n'
  | 'r' => some '\r'
  | 't' => some '\t'
  | _ => none

/-- Reads the text of a string after its opening quote, up to the closing one. A character beyond
the basic plane is written as two escapes; one of them alone is refused. -/
def quoted? : List Char → Option (List Char × List Char)
  | [] => none
  | '"' :: rest => some ([], rest)
  | '\\' :: 'u' :: a :: b :: c :: d :: '\\' :: 'u' :: e :: f :: g :: h :: rest => do
    let high ← hexFour? a b c d
    let low ← hexFour? e f g h
    if 0xD800 ≤ high ∧ high < 0xDC00 then
      if 0xDC00 ≤ low ∧ low < 0xE000 then
        let (text, rest) ← quoted? rest
        return (Char.ofNat (0x10000 + (high - 0xD800) * 0x400 + (low - 0xDC00)) :: text, rest)
      else none
    else if 0xDC00 ≤ high ∧ high < 0xE000 then none
    else
      let (text, rest) ← quoted? ('\\' :: 'u' :: e :: f :: g :: h :: rest)
      return (Char.ofNat high :: text, rest)
  | '\\' :: 'u' :: a :: b :: c :: d :: rest => do
    let code ← hexFour? a b c d
    if 0xD800 ≤ code ∧ code < 0xE000 then none
    else
      let (text, rest) ← quoted? rest
      return (Char.ofNat code :: text, rest)
  | '\\' :: c :: rest => do
    let c ← unescaped? c
    let (text, rest) ← quoted? rest
    return (c :: text, rest)
  | c :: rest =>
    if c.toNat < 32 then none
    else do
      let (text, rest) ← quoted? rest
      return (c :: text, rest)

def isDigit (c : Char) : Bool := '0' ≤ c && c ≤ '9'

def digitValues (cs : List Char) : List Nat := cs.map fun c => c.toNat - '0'.toNat

def natOfDigits (ds : List Nat) : Nat := ds.foldl (fun n d => n * 10 + d) 0

/-- The digits at the beginning, of which there is at least one. -/
def someDigits? (cs : List Char) : Option (List Nat × List Char) :=
  let ds := cs.takeWhile isDigit
  if ds.isEmpty then none else some (digitValues ds, cs.dropWhile isDigit)

def places? : List Char → Option (Option (List Nat) × List Char)
  | '.' :: cs => do
    let (ds, cs) ← someDigits? cs
    return (some ds, cs)
  | cs => some (none, cs)

def signOf : List Char → Bool × List Char
  | '-' :: cs => (true, cs)
  | '+' :: cs => (false, cs)
  | cs => (false, cs)

def power? : List Char → Option (Option Int × List Char)
  | c :: cs =>
    if c = 'e' ∨ c = 'E' then do
      let (negative, cs) := signOf cs
      let (ds, cs) ← someDigits? cs
      let n : Int := natOfDigits ds
      return (some (if negative then -n else n), cs)
    else some (none, c :: cs)
  | [] => some (none, [])

/-- Reads a number without its sign. A whole part of several digits does not begin with zero. -/
def number? (negative : Bool) (cs : List Char) : Option (Number × List Char) := do
  let (whole, cs) ← someDigits? cs
  if whole.head? = some 0 ∧ whole.length ≠ 1 then none
  else
    let (places, cs) ← places? cs
    let (power, cs) ← power? cs
    let n ← Spelled.number? ⟨negative, whole, places, power⟩
    return (n, cs)

def scalar (t : Tree) (rest : List Char) : Token × List Char := (.scalar t, rest)

/-- The first token of a text that does not begin with white space, and what follows it. -/
def first? : List Char → Option (Token × List Char)
  | '[' :: rest => some (.openList, rest)
  | ']' :: rest => some (.closeList, rest)
  | '\x7b' :: rest => some (.openMap, rest)
  | '\x7d' :: rest => some (.closeMap, rest)
  | ',' :: rest => some (.comma, rest)
  | ':' :: rest => some (.colon, rest)
  | 'n' :: 'u' :: 'l' :: 'l' :: rest => some (scalar .null rest)
  | 't' :: 'r' :: 'u' :: 'e' :: rest => some (scalar (.bool true) rest)
  | 'f' :: 'a' :: 'l' :: 's' :: 'e' :: rest => some (scalar (.bool false) rest)
  | '"' :: rest => (quoted? rest).map fun (text, rest) => scalar (.str (String.ofList text)) rest
  | '-' :: rest => (number? true rest).map fun (n, rest) => scalar (.num n) rest
  | cs => (number? false cs).map fun (n, rest) => scalar (.num n) rest

/-- The tokens of a text. Each token is at least one character long. -/
def tokensFrom? (acc : Array Token) (cs : List Char) : Option (Array Token) :=
  match cs with
  | [] => some acc
  | c :: rest =>
    if isSpace c then tokensFrom? acc rest
    else
      match first? (c :: rest) with
      | none => none
      | some (t, after) =>
        if _h : after.length < (c :: rest).length then tokensFrom? (acc.push t) after else none
termination_by cs.length
decreasing_by
  · simp
  · exact _h

def tokens? (text : String) : Option (List Token) := (tokensFrom? #[] text.toList).map (·.toList)

end Bitpress.Json
