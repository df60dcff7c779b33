import Bitpress.Pattern.Basic
import Bitpress.Text.Cut

/-!
Reading patterns. Alternatives are separated by bars; a piece is a character, a
class in brackets, an escape or a group, and may be repeated. Flags in a group
change how the rest of it is read. References back to a group and conditions on
what surrounds a match are not part of the language.

Without the flag for Unicode, classes are read as sets of bytes. Those that hold bytes
of which no character consists are not part of the language either.

The readers take the characters that are left and a `fuel` that bounds how often
they call each other; `read?` starts with more than the characters can use up.
-/

namespace Bitpress

namespace Pattern

/-- How characters are read and compared. -/
structure Flags where
  anyCase : Bool := false
  multiLine : Bool := false
  dotAll : Bool := false
  /-- White space and comments in the pattern do not count. -/
  verbose : Bool := false
  ascii : Bool := false
  crlf : Bool := false
  lazy : Bool := false
deriving DecidableEq

/-- What a reader has read, and the characters that are left. -/
abbrev Read (α : Type) := Option (α × List Char)

def skipComment (cs : List Char) : List Char := (cs.dropWhile (· != '\n')).drop 1

/-- Skips what does not count in a verbose pattern. -/
def skipVerbose (cs : List Char) : (fuel : Nat) → List Char
  | 0 => cs
  | fuel + 1 =>
    match cs with
    | '#' :: rest => skipVerbose (skipComment rest) fuel
    | c :: rest => if Text.isBlank c then skipVerbose rest fuel else c :: rest
    | [] => []

def skip (f : Flags) (cs : List Char) : List Char :=
  if f.verbose then skipVerbose cs (cs.length + 1) else cs

def isMeta (c : Char) : Bool := "\\.+*?()|[]\x7b\x7d^$#&-~".toList.contains c

def hexValue? (c : Char) : Option Nat :=
  if '0' ≤ c ∧ c ≤ '9' then some (c.toNat - 48)
  else if 'a' ≤ c ∧ c ≤ 'f' then some (c.toNat - 87)
  else if 'A' ≤ c ∧ c ≤ 'F' then some (c.toNat - 55)
  else none

def charOfHex? (ds : List Char) : Option Char := do
  if ds.isEmpty then none
  else
    let n ← ds.foldlM (fun n d => (hexValue? d).map (n * 16 + ·)) 0
    if n < 0xD800 ∨ (0xE000 ≤ n ∧ n < 0x110000) then some (Char.ofNat n) else none

/-- Reads the digits of a code point: in braces, or `width` of them, which name a byte if `byte`. A byte of a longer
encoding is no character. -/
def hexEscape? (byte : Bool) (width : Nat) (cs : List Char) : Read Char :=
  match cs with
  | '\x7b' :: rest =>
    let ds := rest.takeWhile (· != '\x7d')
    match rest.drop ds.length with
    | _ :: after => (charOfHex? ds).map (·, after)
    | [] => none
  | _ =>
    if cs.length < width then none
    else ((charOfHex? (cs.take width)).filter fun c => !byte || c.toNat < 128).map (·, cs.drop width)

def withCase (f : Flags) (s : CharSet) : CharSet := if f.anyCase then .anyCase f.ascii s else s

def literal (f : Flags) (c : Char) : CharSet := withCase f (.single c)

def negated (b : Bool) (s : CharSet) : CharSet := if b then .complement s else s

/-- The set of a class, or what it leaves out. A class of bytes would leave out bytes that are no characters. -/
def class? (f : Flags) (negative : Bool) (s : CharSet) : Option CharSet :=
  if f.ascii && negative then none else some (negated negative s)

/-- The class that a letter after a backslash names. -/
def letterClass? (f : Flags) (c : Char) : Option CharSet :=
  if f.ascii then
    match c with
    | 'd' => CharSet.ofClassName? "digit"
    | 's' => CharSet.ofClassName? "space"
    | 'w' => CharSet.ofClassName? "word"
    | _ => none
  else
    match c with
    | 'd' => some (.category [.nd])
    | 'D' => some (.complement (.category [.nd]))
    | 's' => some .space
    | 'S' => some (.complement .space)
    | 'w' => some .word
    | 'W' => some (.complement .word)
    | _ => none

/-- A property by its written name, which may hold a value. -/
def property? (f : Flags) (negative : Bool) (name : List Char) : Option CharSet :=
  if f.ascii then none
  else
    let text := String.ofList name
    let set :=
      match Text.cutAt? "!=".toList name with
      | some (p, v) => (CharSet.ofPropertyValue? (String.ofList p) (String.ofList v)).map CharSet.complement
      | none =>
        match name.findIdx? (fun c => c == '=' || c == ':') with
        | some i => CharSet.ofPropertyValue? (String.ofList (name.take i)) (String.ofList (name.drop (i + 1)))
        | none => CharSet.ofPropertyName? text
    set.map fun s => negated negative (withCase f s)

/-- Reads a property after its letter `p`. -/
def propertyEscape? (f : Flags) (negative : Bool) (cs : List Char) : Read CharSet :=
  match cs with
  | '\x7b' :: rest =>
    let name := rest.takeWhile (· != '\x7d')
    match rest.drop name.length with
    | _ :: after => (property? f negative name).map (·, after)
    | [] => none
  | c :: rest => (property? f negative [c]).map (·, rest)
  | [] => none

/-- What follows a backslash. -/
inductive Escaped
  | char (c : Char)
  | set (s : CharSet)
  | at (a : Assertion)

/-- Reads the braces that may follow a word boundary. -/
def boundary (cs : List Char) : WordEdge × List Char :=
  match Text.after? "\x7bstart\x7d".toList cs with
  | some rest => (.start, rest)
  | none =>
    match Text.after? "\x7bend\x7d".toList cs with
    | some rest => (.stop, rest)
    | none =>
      match Text.after? "\x7bstart-half\x7d".toList cs with
      | some rest => (.startHalf, rest)
      | none =>
        match Text.after? "\x7bend-half\x7d".toList cs with
        | some rest => (.stopHalf, rest)
        | none => (.boundary, cs)

def escape? (f : Flags) : List Char → Read Escaped
  | [] => none
  | c :: rest =>
    match c with
    | 'x' => (hexEscape? f.ascii 2 rest).map fun (c, r) => (.char c, r)
    | 'u' => (hexEscape? false 4 rest).map fun (c, r) => (.char c, r)
    | 'U' => (hexEscape? false 8 rest).map fun (c, r) => (.char c, r)
    | 'p' => (propertyEscape? f false rest).map fun (s, r) => (.set s, r)
    | 'P' => (propertyEscape? f true rest).map fun (s, r) => (.set s, r)
    | 'a' => some (.char '\x07', rest)
    | 'f' => some (.char '\x0c', rest)
    | 't' => some (.char '\t', rest)
    | 'n' => some (.char '\n', rest)
    | 'r' => some (.char '\r', rest)
    | 'v' => some (.char '\x0b', rest)
    | 'A' => some (.at .textStart, rest)
    | 'z' => some (.at .textEnd, rest)
    | 'b' => some (.at (.word (boundary rest).1 f.ascii), (boundary rest).2)
    | 'B' => some (.at (.word .inside f.ascii), rest)
    | '<' => some (.at (.word .start f.ascii), rest)
    | '>' => some (.at (.word .stop f.ascii), rest)
    | _ =>
      if "dDsSwW".toList.contains c then (letterClass? f c).map fun s => (.set s, rest)
      else if isMeta c || (c.toNat < 128 && !c.isAlphanum) then some (.char c, rest)
      else none

/-! ### Classes in brackets -/

/-- One item of a class: a character, which may begin a range, or a set. -/
def classItem? (f : Flags) : List Char → Read Escaped
  | [] => none
  | '\\' :: rest =>
    match escape? f rest with
    | some (.at _, _) => none
    | r => r
  | c :: rest => some (.char c, rest)

/-- Reads a named class after its opening bracket and colon. -/
def namedClass? (f : Flags) (cs : List Char) : Read (Option CharSet) :=
  let (negative, cs) :=
    match cs with
    | '^' :: rest => (true, rest)
    | _ => (false, cs)
  let name := cs.takeWhile (· != ':')
  match cs.drop name.length with
  | ':' :: ']' :: after =>
    (CharSet.ofClassName? (String.ofList name)).map fun s => (class? f negative (withCase f s), after)
  | _ => none

/-- A character that stands in a class as it is; a class of bytes has only those of ASCII. -/
def classChar (f : Flags) (c : Char) : Bool := !f.ascii || c.toNat < 128

/-- What an item of a class is that begins no range. -/
def itemAlone? (f : Flags) : Escaped → Option CharSet
  | .char c => if classChar f c then some (literal f c) else none
  | .set s => some s
  | .at _ => none

/-- What a range of a class is, from its two ends. -/
def rangeBetween? (f : Flags) : Escaped → Escaped → Option CharSet
  | .char a, .char b =>
    if a.toNat ≤ b.toNat && classChar f b then some (withCase f (.range a.toNat b.toNat)) else none
  | _, _ => none

/-- Reads an item or a range of a class. -/
def classRange? (f : Flags) (cs : List Char) : Read CharSet :=
  (classItem? f cs).bind fun (first, cs) =>
    match skip f cs with
    | '-' :: rest =>
      match skip f rest with
      | ']' :: _ => (itemAlone? f first).map (·, skip f cs)
      | '-' :: _ => (itemAlone? f first).map (·, skip f cs)
      | [] => none
      | rest => (classItem? f rest).bind fun (last, cs) => (rangeBetween? f first last).map (·, cs)
    | _ => (itemAlone? f first).map (·, skip f cs)

/-- The operations between sets of a class. -/
inductive SetOp
  | inter
  | diff
  | symmetric

def SetOp.apply : SetOp → CharSet → CharSet → CharSet
  | .inter, a, b => .inter a b
  | .diff, a, b => .diff a b
  | .symmetric, a, b => .symm a b

def joinSets (left : Option (CharSet × SetOp)) (right : CharSet) : CharSet :=
  match left with
  | some (a, op) => op.apply a right
  | none => right

/-- The literal hyphens and bracket with which a class may begin. -/
def classStart (f : Flags) (cs : List Char) : CharSet × List Char :=
  let dashes := cs.takeWhile (· == '-')
  let rest := skip f (cs.drop dashes.length)
  if dashes.isEmpty then
    match rest with
    | ']' :: more => (.union .nothing (.single ']'), more)
    | _ => (.nothing, rest)
  else (dashes.foldl (fun acc c => .union acc (literal f c)) .nothing, rest)

mutual

/-- Reads a class after its opening bracket. -/
def classBody? (f : Flags) (cs : List Char) : (fuel : Nat) → Read CharSet
  | 0 => none
  | fuel + 1 =>
    let cs := skip f cs
    let (negative, cs) :=
      match cs with
      | '^' :: rest => (true, skip f rest)
      | _ => (false, cs)
    let (start, cs) := classStart f cs
    (classItems? f none start cs fuel).bind fun (s, rest) =>
      ((class? f negative s).map .bracketed).map (·, rest)

/-- Reads the items of a class up to its closing bracket; `left` is what an operation waits for. -/
def classItems? (f : Flags) (left : Option (CharSet × SetOp)) (acc : CharSet) (cs : List Char) :
    (fuel : Nat) → Read CharSet
  | 0 => none
  | fuel + 1 =>
    match skip f cs with
    | [] => none
    | ']' :: rest => some (joinSets left acc, rest)
    | '&' :: '&' :: rest => classItems? f (some (joinSets left acc, .inter)) .nothing rest fuel
    | '-' :: '-' :: rest => classItems? f (some (joinSets left acc, .diff)) .nothing rest fuel
    | '~' :: '~' :: rest => classItems? f (some (joinSets left acc, .symmetric)) .nothing rest fuel
    | '[' :: rest =>
      let named : Read (Option CharSet) :=
        match rest with
        | ':' :: more => namedClass? f more
        | _ => none
      match named with
      | some (some s, rest) => classItems? f left (.union acc s) rest fuel
      | some (none, _) => none
      | none =>
        match classBody? f rest fuel with
        | some (s, rest) => classItems? f left (.union acc s) rest fuel
        | none => none
    | other =>
      match classRange? f other with
      | some (s, rest) => classItems? f left (.union acc s) rest fuel
      | none => none

end

/-! ### Repetitions -/

def decimal? (cs : List Char) : Read Nat :=
  let cs := Text.skipBlanks cs
  let ds := cs.takeWhile Char.isDigit
  let n := ds.foldl (fun n d => n * 10 + (d.toNat - 48)) 0
  if ds.isEmpty || 0x100000000 ≤ n then none else some (n, Text.skipBlanks (cs.drop ds.length))

/-- Reads the bounds of a repetition after its opening brace. -/
def bounds? (f : Flags) (cs : List Char) : Option ((Nat × Option Nat) × List Char) := do
  let (least, cs) ← decimal? (skip f cs)
  match cs with
  | '\x7d' :: rest => some ((least, some least), rest)
  | ',' :: rest =>
    match skip f rest with
    | '\x7d' :: rest => some ((least, none), rest)
    | rest => do
      let (most, cs) ← decimal? rest
      match cs with
      | '\x7d' :: rest => if least ≤ most then some ((least, some most), rest) else none
      | _ => none
  | _ => none

def dropLazy (cs : List Char) : List Char :=
  match cs with
  | '?' :: rest => rest
  | _ => cs

/-- Reads the repetitions that follow a piece. -/
def repeated? (f : Flags) (p : Pattern) (cs : List Char) : (fuel : Nat) → Read Pattern
  | 0 => none
  | fuel + 1 =>
    match skip f cs with
    | '*' :: rest => repeated? f (.times p 0 none) (dropLazy (skip f rest)) fuel
    | '+' :: rest => repeated? f (.times p 1 none) (dropLazy (skip f rest)) fuel
    | '?' :: rest => repeated? f (.times p 0 (some 1)) (dropLazy (skip f rest)) fuel
    | '\x7b' :: rest =>
      match bounds? f rest with
      | some ((least, most), rest) => repeated? f (.times p least most) (dropLazy (skip f rest)) fuel
      | none => none
    | other => some (p, other)

/-! ### Groups -/

/-- Sets or clears the flag of a letter. -/
def setFlag? (f : Flags) (on : Bool) : Char → Option Flags
  | 'i' => some { f with anyCase := on }
  | 'm' => some { f with multiLine := on }
  | 's' => some { f with dotAll := on }
  | 'x' => some { f with verbose := on }
  | 'u' => some { f with ascii := !on }
  | 'R' => some { f with crlf := on }
  | 'U' => some { f with lazy := on }
  | _ => none

/-- Reads flag letters up to a colon or closing parenthesis. No letter stands twice. -/
def flags? (f : Flags) (on : Bool) (seen : List Char) (last : Option Char) :
    List Char → Option (Flags × Char × List Char)
  | [] => none
  | c :: rest =>
    if c = ':' ∨ c = ')' then
      if last = some '-' ∨ (c = ')' ∧ last = none) then none else some (f, c, rest)
    else if c = '-' then if on then flags? f false seen (some c) rest else none
    else if seen.contains c then none
    else
      match setFlag? f on c with
      | some f => flags? f on (c :: seen) (some c) rest
      | none => none

def alphabetic : Text.Extent := (Text.Extent.named? Text.Property.binary "alphabetic").getD ⟨[], [], []⟩

def startsGroupName (c : Char) : Bool := c == '_' || alphabetic.contains c

def continuesGroupName (c : Char) : Bool :=
  startsGroupName c || c == '.' || c == '[' || c == ']' || (Text.Category.of c).isNumber

/-- Reads the name of a group up to its closing angle. -/
def groupName? (cs : List Char) : Read String :=
  let name := cs.takeWhile (· != '>')
  match name, cs.drop name.length with
  | c :: more, _ :: rest =>
    if startsGroupName c && more.all continuesGroupName then some (String.ofList name, rest) else none
  | _, _ => none

/-- How a group begins: with flags for the rest of the group around it, or as a group with flags of its
own, which captures what it matches unless flags are written, and perhaps has a name. -/
inductive GroupStart
  | flags (f : Flags)
  | group (captures : Bool) (f : Flags) (name : Option String)

/-- Reads the beginning of a group after its parenthesis. -/
def groupStart? (f : Flags) (cs : List Char) : Read GroupStart :=
  match cs with
  | '?' :: 'P' :: '<' :: rest => (groupName? rest).map fun (n, r) => (.group true f (some n), r)
  | '?' :: '<' :: '=' :: _ => none
  | '?' :: '<' :: '!' :: _ => none
  | '?' :: '<' :: rest => (groupName? rest).map fun (n, r) => (.group true f (some n), r)
  | '?' :: rest =>
    match flags? f true [] none rest with
    | some (g, ':', rest) => some (.group false g none, rest)
    | some (g, _, rest) => some (.flags g, rest)
    | none => none
  | rest => some (.group true f none, rest)

/-- What reading an alternative leaves: the flags at its end and the group names so far. -/
structure Progress where
  flags : Flags
  names : List String

def dotSet (f : Flags) : CharSet :=
  if f.dotAll then .anything
  else if f.crlf then .complement (.union (.single '\n') (.single '\r'))
  else .complement (.single '\n')

mutual

/-- Reads alternatives up to a closing parenthesis or the end. -/
def alternatives? (s : Progress) (cs : List Char) : (fuel : Nat) → Read (Pattern × Progress)
  | 0 => none
  | fuel + 1 =>
    match sequence? s none cs fuel with
    | none => none
    | some ((p, s), '|' :: rest) =>
      match alternatives? s rest fuel with
      | some ((q, s), rest) => some ((.alt p q, s), rest)
      | none => none
    | some ((p, s), rest) => some ((p, s), rest)

/-- Reads pieces one after the other; `acc` is what has been read. -/
def sequence? (s : Progress) (acc : Option Pattern) (cs : List Char) :
    (fuel : Nat) → Read (Pattern × Progress)
  | 0 => none
  | fuel + 1 =>
    let f := s.flags
    let join (p : Pattern) : Pattern :=
      match acc with
      | some q => .seq q p
      | none => p
    let single (p : Pattern) (rest : List Char) : Read (Pattern × Progress) :=
      match repeated? f p rest (rest.length + 1) with
      | some (p, rest) => sequence? s (some (join p)) rest fuel
      | none => none
    match skip f cs with
    | [] => some ((acc.getD .empty, s), [])
    | '|' :: rest => some ((acc.getD .empty, s), '|' :: rest)
    | ')' :: rest => some ((acc.getD .empty, s), ')' :: rest)
    | '*' :: _ => none
    | '+' :: _ => none
    | '?' :: _ => none
    | '\x7b' :: _ => none
    | '.' :: rest => if f.ascii then none else single (.chars (dotSet f)) rest
    | '^' :: rest => single (.assertion (if f.multiLine then .lineStart f.crlf else .textStart)) rest
    | '$' :: rest => single (.assertion (if f.multiLine then .lineEnd f.crlf else .textEnd)) rest
    | '[' :: rest =>
      match classBody? f rest (2 * rest.length + 2) with
      | some (set, rest) => single (.chars set) rest
      | none => none
    | '\\' :: rest =>
      match escape? f rest with
      | some (.char c, rest) => single (.chars (literal f c)) rest
      | some (.set set, rest) => single (.chars set) rest
      | some (.at a, rest) => single (.assertion a) rest
      | none => none
    | '(' :: rest =>
      match groupStart? f rest with
      | none => none
      | some (.flags g, rest) =>
        match skip g rest with
        | '*' :: _ => none
        | '+' :: _ => none
        | '?' :: _ => none
        | '\x7b' :: _ => none
        | _ => sequence? { s with flags := g } (some (join .empty)) rest fuel
      | some (.group captures g name, rest) =>
        let names := name.toList ++ s.names
        if name.any fun n => s.names.contains n then none
        else
          match alternatives? ⟨g, names⟩ rest fuel with
          | some ((p, inner), ')' :: rest) =>
            match repeated? f (.group captures p) rest (rest.length + 1) with
            | some (p, rest) => sequence? { s with names := inner.names } (some (join p)) rest fuel
            | none => none
          | _ => none
    | c :: rest => single (.chars (literal f c)) rest

end

/-- Reads a pattern of any size. -/
def read? (text : String) : Option Pattern :=
  let cs := text.toList
  match alternatives? ⟨{}, []⟩ cs (2 * cs.length + 4) with
  | some ((p, _), []) => some p
  | _ => none

/-- Reads a pattern. -/
def parse? (text : String) : Option Pattern := (read? text).filter fits

end Pattern

end Bitpress
