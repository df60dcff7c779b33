import Bitpress.Shell.Desk

/-!
Output with escapes and formats. A code of three octal digits stands for a byte,
so what is written need not be text.
-/

namespace Bitpress.Shell.Format

def octal (cs : List Char) : Nat := cs.foldl (fun n c => n * 8 + (c.toNat - '0'.toNat)) 0

def isOctal (c : Char) : Bool := '0' ≤ c && c ≤ '7'

def single (n : Nat) : ByteArray := ⟨#[n.toUInt8]⟩

def encode (c : Char) : ByteArray := (String.singleton c).toUTF8

def letters : List (Char × Nat) :=
  [('a', 7), ('b', 8), ('f', 12), ('n', 10), ('r', 13), ('t', 9), ('v', 11), ('\\', 92)]

/-- The bytes of an escape after its backslash. Where codes begin with a zero it does not count. -/
def escape (zero : Bool) (cs : List Char) : ByteArray × List Char :=
  match cs with
  | [] => (single 92, [])
  | c :: rest =>
    if isOctal c ∧ (c = '0' ∨ !zero) then
      let start := if zero then rest else cs
      let digits := (start.takeWhile isOctal).take 3
      (single (octal digits), start.drop digits.length)
    else
      match letters.lookup c with
      | some n => (single n, rest)
      | none => if c = '"' ∧ !zero then (single 34, rest) else (single 92 ++ encode c, rest)

/-- A text with its escapes carried out; `\c` ends all output. -/
def unescape (zero : Bool) (cs : List Char) : (fuel : Nat) → ByteArray × Bool
  | 0 => (.empty, false)
  | fuel + 1 =>
    match cs with
    | [] => (.empty, false)
    | '\\' :: 'c' :: _ => (.empty, true)
    | '\\' :: rest =>
      let (bytes, rest) := escape zero rest
      let (others, stopped) := unescape zero rest fuel
      (bytes ++ others, stopped)
    | c :: rest =>
      let (others, stopped) := unescape zero rest fuel
      (encode c ++ others, stopped)

def plainEscapes (cs : List Char) : ByteArray × Bool := unescape true cs (cs.length + 1)

/-- Fills a text up to a width. -/
def pad (left zeros : Bool) (width : Nat) (s : List Char) : List Char :=
  let fill := List.replicate (width - s.length) (if zeros && !left then '0' else ' ')
  if left then s ++ fill else fill ++ s

def number (s : String) : Int :=
  match s.toList with
  | ['\'', c] => c.toNat
  | ['"', c] => c.toNat
  | _ => s.trimAscii.toString.toInt?.getD 0

/-- An argument in the form of a conversion. -/
def converted (c : Char) (precision : Option Nat) (a : String) : Option (List Char) :=
  let digits (base : Nat) : List Char := Nat.toDigits base (number a).toNat
  match c with
  | 's' => some (match precision with
    | some n => a.toList.take n
    | none => a.toList)
  | 'c' => some (a.toList.take 1)
  | 'd' | 'i' | 'u' => some (toString (number a)).toList
  | 'o' => some (digits 8)
  | 'x' => some (digits 16)
  | 'X' => some ((digits 16).map Char.toUpper)
  | _ => none

/-- One pass over a format. It tells whether it used an argument and whether output ends. -/
def pass (used : Bool) (arguments : List String) (cs : List Char) :
    (fuel : Nat) → ByteArray × List String × Bool × Bool
  | 0 => (.empty, arguments, used, true)
  | fuel + 1 =>
    let with_ (bytes : ByteArray) (r : ByteArray × List String × Bool × Bool) := (bytes ++ r.1, r.2)
    match cs with
    | [] => (.empty, arguments, used, false)
    | '\\' :: rest =>
      let (bytes, rest) := escape false rest
      with_ bytes (pass used arguments rest fuel)
    | '%' :: '%' :: rest => with_ (single 37) (pass used arguments rest fuel)
    | '%' :: rest =>
      let flags := rest.takeWhile fun c => "-0+ #".toList.contains c
      let rest := rest.drop flags.length
      let width := rest.takeWhile Char.isDigit
      let rest := rest.drop width.length
      let (precision, rest) := match rest with
        | '.' :: rest => (some ((String.ofList (rest.takeWhile Char.isDigit)).toNat?.getD 0), rest.dropWhile Char.isDigit)
        | rest => (none, rest)
      match rest with
      | [] => (.empty, arguments, used, true)
      | 'b' :: rest =>
        let (bytes, stopped) := plainEscapes (arguments.head?.getD "").toList
        if stopped then (bytes, arguments.drop 1, true, true)
        else with_ bytes (pass true (arguments.drop 1) rest fuel)
      | c :: rest =>
        match converted c precision (arguments.head?.getD "") with
        | none => (.empty, arguments, used, true)
        | some s =>
          let padded := pad (flags.contains '-') (flags.contains '0' && c != 's') ((String.ofList width).toNat?.getD 0) s
          with_ (String.ofList padded).toUTF8 (pass true (arguments.drop 1) rest fuel)
    | c :: rest => with_ (encode c) (pass used arguments rest fuel)

/-- A format with its arguments; it is used again while there are arguments. -/
def print (format : List Char) (arguments : List String) : (fuel : Nat) → ByteArray
  | 0 => .empty
  | fuel + 1 =>
    let (bytes, rest, used, stopped) := pass false arguments format (format.length + 1)
    if stopped || rest.isEmpty || !used then bytes else bytes ++ print format rest fuel

/-- Writes its arguments on a line; with `-n` the line does not end. -/
def echo : Utility := fun arguments => do
  let (ending, words) := match arguments with
    | "-n" :: rest => ("", rest)
    | words => ("\n", words)
  let (bytes, stopped) := plainEscapes (String.intercalate " " words).toList
  Desk.say (if stopped then bytes else bytes ++ ending.toUTF8)

def printf : Utility
  | [] => Desk.fail 2 "printf: usage: printf format [arg ...]"
  | "--" :: format :: arguments | format :: arguments => Desk.say (print format.toList arguments (arguments.length + 1))

end Bitpress.Shell.Format
