import Bitpress.Collection
import Bitpress.Selection

/-!
Matching: the elements of a collection that a query finds, in the order and
number that it asks for.
-/

namespace Bitpress.Query

/-- Picks items, with random words of the seed if it needs some. -/
def selected (s : SelectSpec) (items : List α) : Press (List α) := do
  let source ←
    if s.indices.isNone && (s.shuffle || s.sample.isSome) then Press.randomSource s.seed
    else pure (ChaCha.seeded 0)
  return Selection.pick source s items

/-- What a query picks from the elements that it found. -/
def picked (q : QuerySpec) (found : Collection α) : Press (List α) :=
  match q.select with
  | some s => selected s found.items
  | none => return found.items

/-- The elements that satisfy the predicates of a query, and what it picks from them. -/
def matching [Element α] (c : Collection α) (q : QuerySpec) : Press (List α) := do
  let found ← match q.predicate? with
    | some clause => Press.ofOutcome (c.whereClause clause)
    | none => pure c
  picked q found

end Bitpress.Query
