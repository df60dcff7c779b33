import Bitpress.Declaration.Query
import Bitpress.Element

/-!
Collections: elements in order, each identity once. Filtering leaves a collection
as it is and keeps the order of what it finds.
-/

namespace Bitpress

structure Collection (α : Type) where
  items : List α
deriving Inhabited

/-- Predicates on elements: a pattern for the beginning of the name, tags that must all be there, and
equal metadata. -/
structure Filter where
  name : Option String := none
  tags : List String := []
  metadata : Table Tree := []
deriving Inhabited

namespace Filter

def isEmpty (f : Filter) : Bool :=
  f.name.isNone && f.tags.isEmpty && f.metadata.all fun e => e.2.isNull

def ofClause (c : WhereClause) : Filter := ⟨c.name, c.tags, c.metadata⟩

/-- The pattern of a name filter, held to the beginning of the name. -/
def namePattern (written : String) : Outcome Pattern :=
  match Pattern.parse? ("^(?:" ++ written ++ ")") with
  | some p => .ok p
  | none => .error (.invalidPattern written)

end Filter

namespace Collection

variable {α : Type} [Element α]

def empty : Collection α := ⟨[]⟩

def hasId (c : Collection α) (id : ElementId) : Bool := c.items.any fun a => Element.id a == id

/-- Adds an element whose identity is new. -/
def push (c : Collection α) (a : α) : Outcome (Collection α) :=
  if c.hasId (Element.id a) then .error (.duplicateElement (Element.label a))
  else .ok ⟨c.items ++ [a]⟩

/-- Adds elements one after the other up to the first that is refused; gives what was reached and the
error. -/
def extend (c : Collection α) : List α → Collection α × Option Error
  | [] => (c, none)
  | a :: rest =>
    match c.push a with
    | .ok c => c.extend rest
    | .error e => (c, some e)

/-- A collection of elements with distinct identities. -/
def ofItems (items : List α) : Outcome (Collection α) :=
  match (empty : Collection α).extend items with
  | (c, none) => .ok c
  | (_, some e) => .error e

/-- The collection with those elements added whose identities are new. -/
def absorb (c : Collection α) (items : List α) : Collection α :=
  items.foldl (fun c a => if c.hasId (Element.id a) then c else ⟨c.items ++ [a]⟩) c

def findById (c : Collection α) (id : ElementId) : Outcome α :=
  match c.items.find? fun a => Element.id a == id with
  | some a => .ok a
  | none => .error (.elementNotFound id.text)

/-- The first element with exactly this name. -/
def findByName? (c : Collection α) (name : String) : Option α :=
  c.items.find? fun a => Element.name? a == some name

/-- Whether an element satisfies a filter whose pattern has been read. -/
def satisfies (pattern : Option Pattern) (f : Filter) (a : α) : Bool :=
  (pattern.all fun p => Element.matchesName p a) && Element.hasTags f.tags a &&
    f.metadata.all fun e => Element.matchesMetadata e.1 e.2 a

def filter (c : Collection α) (f : Filter) : Outcome (Collection α) := do
  let pattern ← f.name.mapM Filter.namePattern
  return ⟨c.items.filter (satisfies pattern f)⟩

/-- The elements that satisfy a filter; with an identity, only that element is asked. -/
def query (c : Collection α) (id : Option ElementId) (f : Filter) : Outcome (Collection α) :=
  match id with
  | none => c.filter f
  | some id => do
    let a ← c.findById id
    filter ⟨[a]⟩ f

/-- Whether an element has all fields of one list and none of another. -/
def hasFields (has missing : List String) (a : α) : Bool :=
  has.all (Element.hasField a) && !missing.any (Element.hasField a)

/-- The elements that satisfy a where clause. -/
def whereClause (c : Collection α) (w : WhereClause) : Outcome (Collection α) := do
  let id ← w.id.mapM fun written =>
    match ElementId.read? (Text.trim written) with
    | some id => Except.ok id
    | none => Except.error (Error.elementNotFound written)
  let base ← c.query id (.ofClause w)
  return ⟨base.items.filter (hasFields w.has w.missing)⟩

end Collection

end Bitpress
