import Bitpress.Json.Token
import Bitpress.Text.Cut

/-!
The scalars of TOML text: strings, numbers, dates and times. Every reader takes
the characters from the front of a text and gives what is left.
-/

namespace Bitpress.Toml

/-- A value without parts. Dates and times are kept as their text. -/
inductive Scalar
  | text (s : String)
  | integer (n : Int)
  | real (x : Binary64)
  | boolean (b : Bool)
  | moment (s : String)

/-! ### Strings -/

/-- Control characters other than the tab stand in no text. -/
def isForbidden (c : Char) : Bool := (c.toNat < 32 && c != '\t') || c.toNat == 127

def simpleEscapes : List (Char × Char) :=
  [('b', '\x08'), ('t', '\t'), ('n', '\n'), ('f', '\x0c'), ('r', '\r'), ('e', '\x1b'), ('"', '"'), ('\\', '\\')]

/-- Reads a character by its code of `n` hexadecimal digits. -/
def coded? (n : Nat) (cs : List Char) : Option (Char × List Char) := do
  let ds := cs.take n
  if ds.length < n then none
  else
    let code ← ds.foldlM (fun acc d => (Json.hexValue? d).map (acc * 16 + ·)) 0
    if (0xD800 ≤ code ∧ code ≤ 0xDFFF) ∨ 0x10FFFF < code then none
    else some (Char.ofNat code, cs.drop n)

/-- Reads an escape after its backslash. -/
def escape? : List Char → Option (Char × List Char)
  | 'x' :: cs => coded? 2 cs
  | 'u' :: cs => coded? 4 cs
  | 'U' :: cs => coded? 8 cs
  | c :: cs => (simpleEscapes.lookup c).map (·, cs)
  | [] => none

def isBlankOrBreak (c : Char) : Bool := c == ' ' || c == '\t' || c == '\n' || c == '\r'

/-- Reads a string of one line after its opening quote; only between double quotes are there escapes. -/
def line? (quote : Char) (acc : List Char) (cs : List Char) : (fuel : Nat) → Option (String × List Char)
  | 0 => none
  | fuel + 1 =>
    match cs with
    | [] => none
    | c :: rest =>
      if c = quote then some (String.ofList acc.reverse, rest)
      else if c = '\\' ∧ quote = '"' then
        match escape? rest with
        | some (c, rest) => line? quote (c :: acc) rest fuel
        | none => none
      else if isForbidden c then none
      else line? quote (c :: acc) rest fuel

/-- The characters after a backslash at the end of a line, if it stands there. -/
def joinedLine? (cs : List Char) : Option (List Char) :=
  match cs.dropWhile fun c => c == ' ' || c == '\t' with
  | '\n' :: rest => some (rest.dropWhile isBlankOrBreak)
  | '\r' :: '\n' :: rest => some (rest.dropWhile isBlankOrBreak)
  | _ => none

/-- Reads a string of several lines after its opening quotes. Up to two quotes may stand directly
before the closing ones. -/
def lines? (quote : Char) (acc : List Char) (cs : List Char) : (fuel : Nat) → Option (String × List Char)
  | 0 => none
  | fuel + 1 =>
    match cs with
    | [] => none
    | c :: rest =>
      if c = quote then
        let n := (cs.takeWhile (· == quote)).length
        if n < 3 then lines? quote (List.replicate n quote ++ acc) (cs.drop n) fuel
        else if n ≤ 5 then
          some (String.ofList (List.replicate (n - 3) quote ++ acc).reverse, cs.drop n)
        else none
      else if c = '\\' ∧ quote = '"' then
        match joinedLine? rest with
        | some rest => lines? quote acc rest fuel
        | none =>
          match escape? rest with
          | some (c, rest) => lines? quote (c :: acc) rest fuel
          | none => none
      else if c = '\r' ∧ rest.head? = some '\n' then lines? quote ('\n' :: '\r' :: acc) (rest.drop 1) fuel
      else if isForbidden c ∧ c ≠ '\n' then none
      else lines? quote (c :: acc) rest fuel

/-- A break directly after the opening quotes does not count. -/
def dropFirstBreak : List Char → List Char
  | '\n' :: rest => rest
  | '\r' :: '\n' :: rest => rest
  | cs => cs

/-- Reads a string of any kind at its opening quote. -/
def string? (cs : List Char) : Option (String × List Char) :=
  match cs with
  | '"' :: '"' :: '"' :: rest => lines? '"' [] (dropFirstBreak rest) (cs.length + 1)
  | '\'' :: '\'' :: '\'' :: rest => lines? '\'' [] (dropFirstBreak rest) (cs.length + 1)
  | '"' :: rest => line? '"' [] rest (cs.length + 1)
  | '\'' :: rest => line? '\'' [] rest (cs.length + 1)
  | _ => none

/-! ### Numbers -/

/-- The digits of a number; underscores stand only between two of them. -/
def digits? (isDigit : Char → Bool) (cs : List Char) : Option (List Char) :=
  let pieces := Text.splitChars '_' cs
  if pieces.all fun p => !p.isEmpty && p.all isDigit then some pieces.flatten else none

/-- Digits without a needless zero in front. -/
def decimalDigits? (cs : List Char) : Option (List Char) :=
  (digits? Char.isDigit cs).bind fun ds => if ds.head? = some '0' ∧ ds.length ≠ 1 then none else some ds

def natInBase? (base : Nat) (cs : List Char) : Option Nat := do
  let value? (c : Char) : Option Nat := (Json.hexValue? c).bind fun d => if d < base then some d else none
  let ds ← digits? (fun c => (value? c).isSome) cs
  ds.foldlM (fun n c => (value? c).map (n * base + ·)) 0

/-- A whole number of 64 bits with a sign. -/
def signedInt? (n : Int) : Option Scalar :=
  if Number.leastInt ≤ n ∧ n ≤ Number.greatestSigned then some (.integer n) else none

def integer? (cs : List Char) : Option Scalar :=
  match cs with
  | '0' :: 'x' :: ds => (natInBase? 16 ds).bind fun n => signedInt? n
  | '0' :: 'o' :: ds => (natInBase? 8 ds).bind fun n => signedInt? n
  | '0' :: 'b' :: ds => (natInBase? 2 ds).bind fun n => signedInt? n
  | _ =>
    let (negative, ds) := Json.signOf cs
    (decimalDigits? ds).bind fun ds =>
      let n : Int := Json.natOfDigits (Json.digitValues ds)
      signedInt? (if negative then -n else n)

/-- The power of ten behind `e`. -/
def powerDigits? (cs : List Char) : Option Int :=
  let (negative, ds) := Json.signOf cs
  (digits? Char.isDigit ds).map fun ds =>
    let n : Int := Json.natOfDigits (Json.digitValues ds)
    if negative then -n else n

def real? (cs : List Char) : Option Scalar := do
  let (negative, body) := Json.signOf cs
  if body = "inf".toList then return .real (.infinity negative)
  else if body = "nan".toList then return .real .nan
  else
    let isPower (c : Char) : Bool := c == 'e' || c == 'E'
    let mantissa := body.takeWhile fun c => !isPower c
    let power ← match body.drop mantissa.length with
      | [] => some none
      | _ :: ds => (powerDigits? ds).map some
    let (whole, places) ← match Text.splitChars '.' mantissa with
      | [whole] => if power.isNone then none else (decimalDigits? whole).map (·, [])
      | [whole, places] =>
        (decimalDigits? whole).bind fun whole => (digits? Char.isDigit places).map (whole, ·)
      | _ => none
    let n := Json.natOfDigits (Json.digitValues (whole ++ places))
    let x := Binary64.ofDecimal negative n (power.getD 0 - (places.length : Int))
    if x.isFinite then return .real x else none

/-! ### Dates and times -/

/-- The number of digits at fixed places. -/
def fixed? (n : Nat) (cs : List Char) : Option (Nat × List Char) :=
  let ds := cs.take n
  if ds.length = n ∧ ds.all Char.isDigit then some (Json.natOfDigits (Json.digitValues ds), cs.drop n)
  else none

def isLeap (year : Nat) : Bool := (year % 4 == 0 && year % 100 != 0) || year % 400 == 0

def daysIn (year month : Nat) : Nat :=
  if month = 2 then if isLeap year then 29 else 28
  else if month = 4 ∨ month = 6 ∨ month = 9 ∨ month = 11 then 30
  else 31

def padded (width n : Nat) : String :=
  let ds := Nat.toDigits 10 n
  String.ofList (List.replicate (width - ds.length) '0' ++ ds)

def date? (cs : List Char) : Option (String × List Char) := do
  let (year, cs) ← fixed? 4 cs
  let cs ← Text.after? ['-'] cs
  let (month, cs) ← fixed? 2 cs
  let cs ← Text.after? ['-'] cs
  let (day, cs) ← fixed? 2 cs
  if 1 ≤ month ∧ month ≤ 12 ∧ 1 ≤ day ∧ day ≤ daysIn year month then
    return (padded 4 year ++ "-" ++ padded 2 month ++ "-" ++ padded 2 day, cs)
  else none

/-- The parts of a second: nine places count, and zeros at the end are dropped. -/
def secondParts? (cs : List Char) : Option (String × List Char) :=
  let ds := cs.takeWhile Char.isDigit
  let kept := ((ds.take 9).reverse.dropWhile (· == '0')).reverse
  if ds.isEmpty then none
  else some ("." ++ (if kept.isEmpty then "0" else String.ofList kept), cs.drop ds.length)

def time? (cs : List Char) : Option (String × List Char) := do
  let (hour, cs) ← fixed? 2 cs
  let cs ← Text.after? [':'] cs
  let (minute, cs) ← fixed? 2 cs
  if 23 < hour ∨ 59 < minute then none
  else
    let start := padded 2 hour ++ ":" ++ padded 2 minute
    match cs with
    | ':' :: rest => do
      let (second, rest) ← fixed? 2 rest
      if 60 < second then none
      else
        let start := start ++ ":" ++ padded 2 second
        match rest with
        | '.' :: rest => (secondParts? rest).map fun (parts, rest) => (start ++ parts, rest)
        | rest => return (start, rest)
    | rest => return (start, rest)

/-- The distance from universal time. -/
def offset? : List Char → Option (String × List Char)
  | 'Z' :: cs => some ("Z", cs)
  | 'z' :: cs => some ("Z", cs)
  | c :: cs =>
    if c = '+' ∨ c = '-' then do
      let (hours, cs) ← fixed? 2 cs
      let cs ← Text.after? [':'] cs
      let (minutes, cs) ← fixed? 2 cs
      if 23 < hours ∨ 59 < minutes then none
      else
        let sign := if c = '-' ∧ 0 < hours + minutes then "-" else "+"
        return (sign ++ padded 2 hours ++ ":" ++ padded 2 minutes, cs)
    else some ("", c :: cs)
  | [] => some ("", [])

/-- Reads a date, a time, or both with the distance from universal time. -/
def moment? (cs : List Char) : Option Scalar :=
  let whole (r : String × List Char) : Option Scalar := if r.2.isEmpty then some (.moment r.1) else none
  match date? cs with
  | some (date, []) => some (.moment date)
  | some (date, c :: rest) =>
    if c = 'T' ∨ c = 't' ∨ c = ' ' then do
      let (time, rest) ← time? rest
      let (offset, rest) ← offset? rest
      whole (date ++ "T" ++ time ++ offset, rest)
    else none
  | none => (time? cs).bind whole

/-! ### Bare scalars -/

def isBareChar (c : Char) : Bool := c.isAlphanum || "_+-.:".toList.contains c

/-- The characters of a scalar without quotes; a space may stand between a date and a time. -/
def bareChars (cs : List Char) : List Char × List Char :=
  let first := cs.takeWhile isBareChar
  let rest := cs.drop first.length
  match rest with
  | ' ' :: more =>
    if (date? first).any (fun r => r.2.isEmpty) && more.head?.any Char.isDigit then
      let second := more.takeWhile isBareChar
      (first ++ ' ' :: second, more.drop second.length)
    else (first, rest)
  | _ => (first, rest)

/-- Reads a scalar without quotes. -/
def bare? (cs : List Char) : Option (Scalar × List Char) :=
  let (word, rest) := bareChars cs
  let scalar :=
    if word = "true".toList then some (Scalar.boolean true)
    else if word = "false".toList then some (.boolean false)
    else integer? word <|> real? word <|> moment? word
  scalar.map (·, rest)

end Bitpress.Toml
