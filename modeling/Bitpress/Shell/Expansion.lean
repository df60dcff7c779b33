import Bitpress.Shell.Arithmetic
import Bitpress.Shell.Glob
import Bitpress.Shell.Job

/-!
Expansion: words become fields. What comes from a parameter or a command outside
of quotes is cut at blanks; after that, fields with active signs stand for the
file names that they match.
-/

namespace Bitpress.Shell

/-- A part of an expanded word. -/
inductive Atom
  /-- Text that stays in one field; it is active if its signs may stand for file names. -/
  | fixed (cs : List Char) (active : Bool)
  /-- Text that is cut at blanks. -/
  | soft (cs : List Char)
  /-- The end of a field. -/
  | gap
deriving Inhabited

/-- Characters, each active or not. -/
abbrev Marked := List (Char × Bool)

namespace Atom

def ofText (quoted : Bool) (cs : List Char) : Atom := if quoted then .fixed cs false else .soft cs

def marked : Atom → Marked
  | fixed cs active => cs.map (·, active)
  | soft cs => cs.map (·, true)
  | gap => [(' ', false)]

/-- Cuts the atoms into fields, of which the last may not have begun. -/
def cut (fields : List Marked) (current : Option Marked) : List Atom → List Marked
  | [] => fields ++ current.toList
  | fixed cs active :: rest => cut fields (some (current.getD [] ++ cs.map (·, active))) rest
  | gap :: rest => cut (fields ++ [current.getD []]) none rest
  | soft cs :: rest =>
    let (fields, current) := cs.foldl (fun (fields, current) c =>
      if c = ' ' ∨ c = '\t' ∨ c = '\n' then (fields ++ current.toList, none)
      else (fields, some (current.getD [] ++ [(c, true)]))) (fields, current)
    cut fields current rest

end Atom

def Marked.text (m : Marked) : String := String.ofList (m.map Prod.fst)

/-- The file names that a field stands for, or its own text. Only the last part may be a pattern. -/
def Marked.names (s : Job) (m : Marked) : List String :=
  if m.any fun e => e.2 && "*?[".toList.contains e.1 then
    let last := (m.reverse.takeWhile fun e => e.1 != '/').reverse
    let before := Marked.text (m.take (m.length - last.length))
    let directory := if before = "" then s.directory else s.directory.join ⟨before⟩
    match Glob.namesIn s.files directory (Glob.ofChars last) with
    | [] => [m.text]
    | names => names.map (before ++ ·)
  else [m.text]

/-- What is done to a parameter that is expanded. -/
inductive Edit
  | plain
  | length
  /-- Another text if the parameter is not set, or, if `empty`, has no text. -/
  | otherwise (empty assigning : Bool) (word : List Char)
  /-- Another text if the parameter is set, or, if `empty`, has a text. -/
  | instead (empty : Bool) (word : List Char)
  | required (empty : Bool) (word : List Char)
  | withoutStart (longest : Bool) (pattern : List Char)
  | withoutEnd (longest : Bool) (pattern : List Char)

/-- The edit after the name of a parameter. -/
def Edit.read? : List Char → Option Edit
  | [] => some .plain
  | ':' :: '-' :: w => some (.otherwise true false w)
  | '-' :: w => some (.otherwise false false w)
  | ':' :: '=' :: w => some (.otherwise true true w)
  | '=' :: w => some (.otherwise false true w)
  | ':' :: '+' :: w => some (.instead true w)
  | '+' :: w => some (.instead false w)
  | ':' :: '?' :: w => some (.required true w)
  | '?' :: w => some (.required false w)
  | '%' :: '%' :: p => some (.withoutEnd true p)
  | '%' :: p => some (.withoutEnd false p)
  | '#' :: '#' :: p => some (.withoutStart true p)
  | '#' :: p => some (.withoutStart false p)
  | _ => none

/-- The name of a parameter and what is done to it. -/
def Edit.ofSource? (source : List Char) : Option (String × Edit) :=
  match source with
  | '#' :: c :: rest =>
    if Token.isNameStart c ∨ c.isDigit then some (String.ofList (c :: rest), .length)
    else (Edit.read? (c :: rest)).map fun e => ("#", e)
  | c :: rest =>
    let name := if Token.isNameStart c then source.takeWhile Token.isNameChar
      else if c.isDigit then source.takeWhile Char.isDigit
      else [c]
    if Token.isNameStart c ∨ Token.isSign c then
      (Edit.read? (if name = [c] then rest else source.drop name.length)).map fun e => (String.ofList name, e)
    else none
  | [] => none

/-- The pieces of the text in an edit. -/
def Edit.word? (quoted : Bool) (cs : List Char) : (fuel : Nat) → Option Word
  | 0 => none
  | fuel + 1 =>
    if quoted then (Token.quotedPieces? [] cs (cs.length + 1)).map List.reverse
    else
      match Token.word? [] cs (cs.length + 1) with
      | some (w, []) => some w
      | some (w, c :: rest) => (Edit.word? quoted rest fuel).map fun others => w ++ .text [c] false :: others
      | none => none

/-- Output without the line breaks at its end. -/
def withoutLastBreaks (cs : List Char) : List Char := (cs.reverse.dropWhile (· == '\n')).reverse

end Bitpress.Shell
