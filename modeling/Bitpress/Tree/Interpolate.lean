import Bitpress.Tree
import Bitpress.Text.Basic

/-!
Variables in trees. A reference stands between a dollar sign with an opening
brace and a closing brace, with white space allowed around its name. One pass
from the left replaces the references to known names; everything else, and every
key of a map, stays as written.
-/

namespace Bitpress

/-- The values of variables. -/
abbrev Variables := Table String

namespace Variables

def startsName (c : Char) : Bool := c.isAlpha || c == '_'

def continuesName (c : Char) : Bool := c.isAlphanum || c == '_' || c == '.' || c == '-'

/-- Reads the inside of a reference up to its closing brace: the name, and what follows. -/
def reference? (cs : List Char) : Option (String × List Char) :=
  let cs := Text.skipBlanks cs
  match cs with
  | [] => none
  | c :: rest =>
    if startsName c then
      let name := c :: rest.takeWhile continuesName
      match Text.skipBlanks (rest.dropWhile continuesName) with
      | '\x7d' :: after => some (String.ofList name, after)
      | _ => none
    else none

/-- A text cut into plain characters and references, a reference with the way it was written. -/
inductive Piece
  | plain (c : Char)
  | reference (name : String) (written : List Char)

/-- The pieces of a text from the left. -/
def pieces (cs : List Char) : List Piece :=
  match cs with
  | [] => []
  | '$' :: '\x7b' :: inner =>
    match reference? inner with
    | some (name, after) =>
      if after.length < inner.length then
        .reference name ('$' :: '\x7b' :: inner.take (inner.length - after.length)) :: pieces after
      else .plain '$' :: pieces ('\x7b' :: inner)
    | none => .plain '$' :: pieces ('\x7b' :: inner)
  | c :: rest => .plain c :: pieces rest
termination_by cs.length

def Piece.fill (vars : Variables) : Piece → List Char
  | .plain c => [c]
  | .reference name written =>
    match vars.valueAt? name with
    | some value => value.toList
    | none => written

/-- The text with every reference to a known name replaced by its value. -/
def fill (vars : Variables) (s : String) : String :=
  String.ofList ((pieces s.toList).flatMap (Piece.fill vars))

end Variables

namespace Tree

mutual

/-- The tree with the references in its texts replaced. -/
def fillStrings (vars : Variables) : Tree → Tree
  | .str s => .str (vars.fill s)
  | .list items => .list (fillItems vars items)
  | .map entries => .map (fillEntries vars entries)
  | .null => .null
  | .bool b => .bool b
  | .num n => .num n

def fillItems (vars : Variables) : List Tree → List Tree
  | [] => []
  | t :: rest => t.fillStrings vars :: fillItems vars rest

def fillEntries (vars : Variables) : List (String × Tree) → List (String × Tree)
  | [] => []
  | (k, t) :: rest => (k, t.fillStrings vars) :: fillEntries vars rest

end

/-- Replaces references to variables; without variables the tree is left alone. -/
def interpolate (vars : Variables) (t : Tree) : Tree :=
  if vars.isEmpty then t else t.fillStrings vars

end Tree

end Bitpress
