import Bitpress.Pattern.Parser
import Bitpress.Shell.Desk
import Bitpress.Text.Basic
import Bitpress.Text.CaseMap

/-! Utilities that read, search and change texts. -/

namespace Bitpress.Shell.TextTool

open Desk (fail asks divide say sayText sayLine contents?)

def textOf (bytes : ByteArray) : String := (FileContent.ofBytes bytes).readable

/-- The texts of the named files, or what is read if none is named. -/
def sources (tool : String) (status : Nat) (names : List String) : StateM Desk (List (String × String)) := do
  let mut found := []
  for name in (if names = [] then ["-"] else names) do
    if let some bytes ← contents? tool name status then found := found ++ [(name, textOf bytes)]
  return found

def linesOf (s : String) : List String :=
  let pieces := Text.split '\n' s
  if pieces.getLast? = some "" then pieces.dropLast else pieces

def sayLines (lines : List String) : StateM Desk Unit := lines.forM sayLine

def cat : Utility := fun arguments => do
  let names := (divide arguments).2
  for name in (if names = [] then ["-"] else names) do
    if let some bytes ← contents? "cat" name 1 then say bytes

def tee : Utility := fun arguments => do
  let (options, names) := divide arguments
  let d ← get
  say d.input
  for name in names do
    let p := d.locate name
    Desk.onFiles ("tee: " ++ name) fun t => do
      let old := if asks options 'a' then ((t.content p).toOption.map FileContent.bytes).getD .empty else .empty
      t.write p (.ofBytes (old ++ d.input))

/-! ### Searching -/

/-- A basic expression in the extended form: the signs that a backslash makes special change places. -/
def extended : List Char → List Char
  | '\\' :: c :: rest => if "()\x7b\x7d|+?".toList.contains c then c :: extended rest else '\\' :: c :: extended rest
  | c :: rest => if "()\x7b\x7d|+?".toList.contains c then '\\' :: c :: extended rest else c :: extended rest
  | [] => []

/-- Every character for itself. -/
def literally (cs : List Char) : List Char :=
  cs.flatMap fun c => if c.isAlphanum || c.toNat ≥ 128 || c == ' ' then [c] else ['\\', c]

def lineMatches (whole : Bool) (p : Pattern) (line : String) : Bool :=
  if whole then (p.ends line.toList.toArray 0).contains line.length else p.matchesSomewhere line

def grep : Utility := fun arguments => do
  let (options, operands) := divide arguments
  match operands with
  | [] => fail 2 "grep: usage: grep [option] pattern [file ...]"
  | pattern :: names =>
    let written := if asks options 'F' then literally pattern.toList
      else if asks options 'E' then pattern.toList else extended pattern.toList
    match Pattern.parse? ((if asks options 'i' then "(?i)" else "") ++ String.ofList written) with
    | none => fail 2 "grep: invalid pattern"
    | some p => do
      let texts ← sources "grep" 2 names
      let mut found := false
      for (name, text) in texts do
        let numbered := (linesOf text).zipIdx.filter fun l => lineMatches (asks options 'x') p l.1 != asks options 'v'
        found := found || !numbered.isEmpty
        let label := if names.length > 1 && !asks options 'h' then name ++ ":" else ""
        if asks options 'q' then pure ()
        else if asks options 'c' then sayLine (label ++ toString numbered.length)
        else if asks options 'l' then (if numbered.isEmpty then pure () else sayLine name)
        else
          for (line, i) in numbered do
            sayLine (label ++ (if asks options 'n' then toString (i + 1) ++ ":" else "") ++ line)
      let d ← get
      if found && (asks options 'q' || d.status = 0) then set { d with status := 0 }
      else if !found && d.status = 0 then set { d with status := 1 }

/-- A text with the longest match at each place, from the left, replaced; `limit` matches at most. -/
def substitute (p : Pattern) (replacement : List Char → List Char) (text : Array Char) (i : Nat) (limit : Nat) :
    (fuel : Nat) → List Char
  | 0 => []
  | fuel + 1 =>
    let rest := (text.toList.drop i)
    if limit = 0 then rest
    else
      match (p.ends text i).max? with
      | some j =>
        if j = i then
          replacement [] ++ match rest with
            | [] => []
            | c :: _ => c :: substitute p replacement text (i + 1) (limit - 1) fuel
        else replacement (rest.take (j - i)) ++ substitute p replacement text j (limit - 1) fuel
      | none =>
        match rest with
        | [] => []
        | c :: _ => c :: substitute p replacement text (i + 1) limit fuel

/-- What a match is replaced by: an ampersand stands for the match. -/
def filledIn (found : List Char) : List Char → List Char
  | '\\' :: 'n' :: rest => '\n' :: filledIn found rest
  | '\\' :: c :: rest => c :: filledIn found rest
  | '&' :: rest => found ++ filledIn found rest
  | c :: rest => c :: filledIn found rest
  | [] => []

/-- Cuts a text at a sign that no backslash protects. -/
def cutAtSign (sign : Char) : List Char → Option (List Char × List Char)
  | '\\' :: c :: rest =>
    (cutAtSign sign rest).map fun (s, rest) => (if c = sign then c :: s else '\\' :: c :: s, rest)
  | c :: rest => if c = sign then some ([], rest) else (cutAtSign sign rest).map fun (s, rest) => (c :: s, rest)
  | [] => none

/-- The change of a line that a substitution stands for. -/
def substitution? (isExtended : Bool) (command : List Char) : Option (String → String) :=
  match command with
  | 's' :: sign :: rest => do
    let (pattern, rest) ← cutAtSign sign rest
    let (replacement, flags) ← cutAtSign sign rest
    let p ← Pattern.parse? ((if flags.contains 'I' then "(?i)" else "") ++
      String.ofList (if isExtended then pattern else extended pattern))
    some fun line =>
      let text := line.toList.toArray
      let limit := if flags.contains 'g' then text.size + 1 else 1
      String.ofList (substitute p (filledIn · replacement) text 0 limit (text.size + 2))
  | _ => none

/-- Changes each line by substitutions. -/
def sed : Utility := fun arguments => do
  let (options, operands) := divide arguments
  let names := operands.drop 1
  let commands := (Text.split ';' (operands.head?.getD "")).map fun s =>
    substitution? (asks options 'E' || asks options 'r') (Text.trimChars s.toList)
  match commands.mapM id with
  | none => fail 1 "sed: unsupported command"
  | some changes =>
    let changed (text : String) : String :=
      String.intercalate "\n" ((Text.split '\n' text).map fun line => changes.foldl (fun l f => f l) line)
    let touched (text : String) : String :=
      if Text.endsWith text "\n" then changed (String.ofList text.toList.dropLast) ++ "\n" else changed text
    if asks options 'i' then
      for name in names do
        let p := (← get).locate name
        Desk.onFiles ("sed: " ++ name) fun t => do t.write p (.text (touched (← t.readText p)))
    else
      for (_, text) in ← sources "sed" 2 names do
        sayText (touched text)

/-! ### Counting and cutting -/

/-- The number of lines or bytes that is asked for, as in `-n 3` or `-3`, and the files. -/
def amount (arguments : List String) : Nat × Bool × List String :=
  let number (s : List Char) : Nat := (String.ofList s).toNat?.getD 10
  match arguments with
  | "-n" :: n :: names => (number n.toList, false, names)
  | "-c" :: n :: names => (number n.toList, true, names)
  | a :: names =>
    match a.toList with
    | '-' :: 'n' :: n => (number n, false, names)
    | '-' :: 'c' :: n => (number n, true, names)
    | '-' :: d :: n => if d.isDigit then (number (d :: n), false, names) else (10, false, arguments)
    | _ => (10, false, arguments)
  | [] => (10, false, [])

def endsPart (tool : String) (first : Bool) : Utility := fun arguments => do
  let (n, inBytes, names) := amount arguments
  for name in (if names = [] then ["-"] else names) do
    if let some bytes ← contents? tool name 1 then
      if inBytes then
        say (if first then bytes.extract 0 n else bytes.extract (bytes.size - n) bytes.size)
      else
        let lines := linesOf (textOf bytes)
        sayLines (if first then lines.take n else lines.drop (lines.length - n))

def head : Utility := endsPart "head" true

def tail : Utility := endsPart "tail" false

def wordCount (s : String) : Nat := ((Text.splitWhere Text.isBlank s.toList).filter (· ≠ [])).length

def wc : Utility := fun arguments => do
  let (options, names) := divide arguments
  for name in (if names = [] then ["-"] else names) do
    if let some bytes ← contents? "wc" name 1 then
      let text := textOf bytes
      let counts := [('l', text.toList.count '\n'), ('w', wordCount text), ('c', bytes.size)]
      let asked := counts.filter fun e => options = [] || asks options e.1
      let shown := match asked with
        | [e] => toString e.2
        | es => String.join (es.map fun e => String.ofList (List.replicate (7 - (toString e.2).length) ' ') ++ toString e.2 ++ " ")
      sayLine (shown ++ if name = "-" then "" else " " ++ name)

/-- The characters of a set, with ranges and classes written out. -/
def members : (cs : List Char) → (fuel : Nat) → List Char
  | _, 0 => []
  | cs, fuel + 1 =>
    let span (a b : Char) : List Char := (List.range (b.toNat + 1 - a.toNat)).map fun i => Char.ofNat (a.toNat + i)
    match Text.after? "[:upper:]".toList cs, Text.after? "[:lower:]".toList cs, Text.after? "[:digit:]".toList cs,
        Text.after? "[:space:]".toList cs with
    | some rest, _, _, _ => span 'A' 'Z' ++ members rest fuel
    | _, some rest, _, _ => span 'a' 'z' ++ members rest fuel
    | _, _, some rest, _ => span '0' '9' ++ members rest fuel
    | _, _, _, some rest => ['\t', '\n', '\x0b', '\x0c', '\r', ' '] ++ members rest fuel
    | _, _, _, _ =>
      match cs with
      | '\\' :: 'n' :: rest => '\n' :: members rest fuel
      | '\\' :: 't' :: rest => '\t' :: members rest fuel
      | '\\' :: c :: rest => c :: members rest fuel
      | a :: '-' :: b :: rest => span a b ++ members rest fuel
      | c :: rest => c :: members rest fuel
      | [] => []

/-- A character for one of the first set: the one in its place in the second set, or its last. -/
def exchanged (first second : List Char) (c : Char) : Char :=
  match first.idxOf? c with
  | some i => (second[i]?).getD (second.getLast?.getD c)
  | none => c

/-- Repeats of one of the characters are left out. -/
def squeezed (set : List Char) : List Char → List Char
  | a :: b :: rest => if a = b ∧ set.contains a then squeezed set (b :: rest) else a :: squeezed set (b :: rest)
  | cs => cs

def tr : Utility := fun arguments => do
  let (options, sets) := divide arguments
  let text := (textOf (← get).input).toList
  let set (i : Nat) : List Char := members ((sets[i]?).getD "").toList (((sets[i]?).getD "").length + 1)
  let inFirst (c : Char) : Bool := (set 0).contains c != (asks options 'c' || asks options 'C')
  if asks options 'd' then sayText (String.ofList (text.filter fun c => !inFirst c))
  else if sets.length < 2 then sayText (String.ofList (if asks options 's' then squeezed (set 0) text else text))
  else
    let changed := text.map (exchanged (set 0) (set 1))
    sayText (String.ofList (if asks options 's' then squeezed (set 1) changed else changed))

def sort : Utility := fun arguments => do
  let (options, names) := divide arguments
  let lines := ((← sources "sort" 2 names).map fun e => linesOf e.2).flatten
  let numeric (s : String) : Int := ((String.ofList (s.toList.takeWhile fun c => c.isDigit || c == '-')).toInt?).getD 0
  let ordered := lines.mergeSort fun a b =>
    if asks options 'n' && numeric a != numeric b then numeric a ≤ numeric b else Text.inOrder a b
  let arranged := if asks options 'r' then ordered.reverse else ordered
  sayLines (if asks options 'u' then arranged.eraseDups else arranged)

/-- Changes the list of lines of each text. -/
def byLines (tool : String) (change : List String → List String) : Utility := fun arguments => do
  for (_, text) in ← sources tool 1 (divide arguments).2 do
    sayLines (change (linesOf text))

def rev : Utility := byLines "rev" fun lines => lines.map fun l => String.ofList l.toList.reverse

def tac : Utility := byLines "tac" List.reverse

/-- A line that is like the one before it is left out. -/
def withoutRepeats : List String → List String
  | a :: b :: rest => if a = b then withoutRepeats (b :: rest) else a :: withoutRepeats (b :: rest)
  | lines => lines

def uniq : Utility := byLines "uniq" withoutRepeats

/-- Whether two files hold the same. -/
def cmp : Utility := fun arguments => do
  match (divide arguments).2 with
  | [a, b] => do
    let some x ← contents? "cmp" a 2 | return
    let some y ← contents? "cmp" b 2 | return
    if x.toList != y.toList then fail 1 (a ++ " " ++ b ++ " differ")
  | _ => fail 2 "cmp: missing operand"

def seq : Utility := fun arguments => do
  match arguments.mapM String.toNat? with
  | some [last] => sayLines ((List.range last).map fun i => toString (i + 1))
  | some [first, last] => sayLines ((List.range (last + 1 - first)).map fun i => toString (first + i))
  | _ => fail 1 "seq: invalid operand"

end Bitpress.Shell.TextTool
