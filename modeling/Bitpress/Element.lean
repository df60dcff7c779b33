import Bitpress.Pattern.Parser
import Bitpress.Session

/-!
Elements: the bits, constants and targets of a registry. Each has an identity, a
name it may lack, tags and metadata, and fields of its own.
-/

namespace Bitpress

/-- What all kinds of elements have. -/
structure ElementInfo where
  id : ElementId
  name : Option String
  tags : List String
  metadata : Table Tree
deriving Inhabited

/-- The information of a new element. -/
def ElementInfo.create (name : Option String) (tags : List String) (metadata : Table Tree) :
    Press ElementInfo :=
  return ⟨← Press.freshId, name, tags, metadata⟩

class Element (α : Type) where
  info : α → ElementInfo
  /-- A field that only this kind of element has. -/
  ownField? : α → String → Option Tree

namespace Element

variable {α : Type} [Element α]

def id (a : α) : ElementId := (info a).id

def name? (a : α) : Option String := (info a).name

def tags (a : α) : List String := (info a).tags

def metadata (a : α) : Table Tree := (info a).metadata

/-- The name in messages: the identity stands in for a missing name. -/
def label (a : α) : String := (name? a).getD (id a).text

/-- A field by its name; metadata comes last. -/
def field? (a : α) (key : String) : Option Tree :=
  if key = "id" then some (.str (id a).text)
  else if key = "name" then (name? a).map .str
  else if key = "tags" then some (.ofStrings (tags a))
  else ownField? a key <|> (metadata a).valueAt? key

/-- Whether a field has a value that counts as there. -/
def hasField (a : α) (key : String) : Bool := (field? a key).any Tree.isPresent

def matchesName (p : Pattern) (a : α) : Bool := (name? a).any p.matchesSomewhere

def hasTags (wanted : List String) (a : α) : Bool := wanted.all fun t => (tags a).contains t

/-- Equal metadata; null asks for nothing. -/
def matchesMetadata (key : String) (expected : Tree) (a : α) : Bool :=
  expected.isNull || ((metadata a).valueAt? key).any fun t => t.equal expected

end Element

end Bitpress
