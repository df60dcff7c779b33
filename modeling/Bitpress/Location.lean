import Bitpress.Text.Cut

/-!
Locations of files: texts whose parts are separated by slashes. A location keeps
its spelling, and two locations are the same when their parts are: empty parts
and dots do not count, except a dot at the very beginning.
-/

namespace Bitpress

structure Location where
  text : String
deriving DecidableEq, Inhabited

namespace Location

inductive Part
  | root
  | current
  | parent
  | name (s : String)
deriving DecidableEq

def partOf (piece : List Char) : Option Part :=
  if piece = [] ∨ piece = ['.'] then none
  else if piece = ['.', '.'] then some .parent
  else some (.name (String.ofList piece))

def isAbsolute (p : Location) : Bool := p.text.toList.head? == some '/'

def parts (p : Location) : List Part :=
  let pieces := Text.splitChars '/' p.text.toList
  let start := if p.isAbsolute then [Part.root] else if pieces.head? = some ['.'] then [.current] else []
  start ++ pieces.filterMap partOf

/-- Whether two spellings name the same file by their parts. -/
def same (p q : Location) : Bool := p.parts == q.parts

def isEmpty (p : Location) : Bool := p.text == ""

/-- The location `q` as seen from the directory `p`. -/
def join (p : Location) (q : Location) : Location :=
  if q.isAbsolute then q
  else if p.text = "" ∨ p.text.toList.getLast? = some '/' then ⟨p.text ++ q.text⟩
  else ⟨p.text ++ "/" ++ q.text⟩

/-- The last part, if it is a name. -/
def fileName? (p : Location) : Option String :=
  match p.parts.getLast? with
  | some (.name s) => some s
  | _ => none

/-- A name without its extension, and the extension after its last dot. -/
def splitName (name : String) : String × Option String :=
  let cs := name.toList.reverse
  match Text.cutAt? ['.'] cs with
  | some (extension, stem) =>
    if stem = [] then (name, none)
    else (String.ofList stem.reverse, some (String.ofList extension.reverse))
  | none => (name, none)

def stem? (p : Location) : Option String := p.fileName?.map fun n => (splitName n).1

def extension? (p : Location) : Option String := p.fileName?.bind fun n => (splitName n).2

/-- Drops slashes, and parts that are a dot, at the end of a reversed text. -/
def dropIdleEnd (rev : List Char) : List Char :=
  match rev with
  | '/' :: rest => if rest.all (· == '/') then ['/'] else dropIdleEnd rest
  | '.' :: '/' :: rest => if rest.all (· == '/') then ['/'] else dropIdleEnd rest
  | other => other

/-- Whether a location is spelled as that of a directory: it ends in a slash, or in a part that is a
dot. -/
def endsOpen (p : Location) : Bool :=
  let rev := p.text.toList.reverse
  rev.head? == some '/' || (Text.after? ['.', '/'] rev).isSome

/-- The location without its last part; the root and the empty location have none. -/
def parent? (p : Location) : Option Location :=
  match p.parts with
  | [] => none
  | [.root] => none
  | _ =>
    let rev := dropIdleEnd p.text.toList.reverse
    some ⟨String.ofList (dropIdleEnd (rev.dropWhile (· != '/'))).reverse⟩

/-- Drops slashes, and parts that are a dot, at the beginning of a text. -/
def dropIdleStart : List Char → List Char
  | '/' :: rest => dropIdleStart rest
  | '.' :: '/' :: rest => dropIdleStart rest
  | ['.'] => []
  | other => other

/-- A text without its first parts that are names or lead to a parent directory. -/
def dropNames (cs : List Char) : (count : Nat) → List Char
  | 0 => dropIdleStart cs
  | count + 1 => dropNames ((dropIdleStart cs).dropWhile (· != '/')) count

/-- The location as seen from a directory that it lies in; any other as it is. -/
def seenFrom (p root : Location) : Location :=
  if root.parts ≠ [] ∧ root.parts.isPrefixOf p.parts then
    let names := root.parts.filter fun part => part matches .name _ | .parent
    ⟨String.ofList (dropIdleEnd (dropNames p.text.toList names.length).reverse).reverse⟩
  else p

/-- The absolute parts with every `..` carried out, as names from the root. -/
def resolveParts (acc : List String) : List Part → List String
  | [] => acc.reverse
  | .name s :: rest => resolveParts (s :: acc) rest
  | .parent :: rest => resolveParts (acc.drop 1) rest
  | _ :: rest => resolveParts acc rest

/-- The names from the root to the file. -/
def route (p : Location) : List String := resolveParts [] p.parts

/-- The absolute location of a list of names. -/
def ofRoute (names : List String) : Location := ⟨"/" ++ String.intercalate "/" names⟩

/-- The location with another extension; an empty one removes it. -/
def withExtension (p : Location) (extension : String) : Location :=
  if p.fileName?.isNone then p
  else
    let old := match p.extension? with
      | some e => e.toList.length + 1
      | none => 0
    let stem := ((dropIdleEnd p.text.toList.reverse).drop old).reverse
    ⟨String.ofList stem ++ if extension = "" then "" else "." ++ extension⟩

end Location

end Bitpress
