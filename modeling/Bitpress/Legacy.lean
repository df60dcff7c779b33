import Bitpress.Session
import Bitpress.Tree

/-!
Older registries keep queries among the variables of a context, under the keys
`blocks` and `constants`. They are lifted into the queries, where a query of the
same name that is already declared wins.
-/

namespace Bitpress.Legacy

/-- A context and queries. -/
structure Lifted where
  context : Table Tree
  queries : Table Tree

def keys : List String := ["blocks", "constants"]

def liftKey (l : Lifted) (key : String) : Lifted :=
  match l.context.valueAt? key with
  | none => l
  | some t =>
    ⟨l.context.without key, if l.queries.hasKey key then l.queries else l.queries.put key t⟩

/-- Moves older queries out of a context. -/
def lift (context queries : Table Tree) : Lifted := keys.foldl liftKey ⟨context, queries⟩

def warning (key : String) : Warning :=
  ⟨s!"ignoring legacy `context.{key}`, `queries.{key}` is already declared", [("query", key)]⟩

/-- A warning for each older query that is not lifted. -/
def warnings (context queries : Table Tree) : List Warning :=
  (keys.filter fun k => context.hasKey k && queries.hasKey k).map warning

end Bitpress.Legacy
