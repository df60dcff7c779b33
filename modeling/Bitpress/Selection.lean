import Bitpress.Declaration.Query
import Bitpress.Random

/-!
Picking from a list of matches. Given places win over every other option;
otherwise the list is shuffled, sampled, cut at its beginning and cut to length,
in this order, from one supply of random words.
-/

namespace Bitpress.Selection

/-- The items at places counted from one; places outside the list are passed over. -/
def atPlaces (items : List α) (places : List Int) : List α :=
  places.filterMap fun i => if 1 ≤ i then items[(i - 1).toNat]? else none

def maybeShuffled (shuffle : Bool) (items : List α) : Draw (List α) :=
  if shuffle then Draw.shuffle items else return items

def maybeSampled (amount : Option Nat) (items : List α) : Draw (List α) :=
  match amount with
  | none => return items
  | some n => do
    let positions ← Draw.sample items.length (Nat.min n items.length)
    return positions.filterMap fun i => items[i]?

def cut (offset count : Option Nat) (items : List α) : List α :=
  let rest := items.drop (offset.getD 0)
  match count with
  | some n => rest.take n
  | none => rest

/-- Picks items with the random words of a source. -/
def pick (source : RandomSource) (s : SelectSpec) (items : List α) : List α :=
  match s.indices with
  | some places => atPlaces items places
  | none =>
    let drawn : Draw (List α) := do maybeSampled s.sample (← maybeShuffled s.shuffle items)
    cut s.offset (s.k <|> s.limit) (drawn.run { source }).1

end Bitpress.Selection
