import Bitpress.Tree

/-!
Deep merging. Maps merge key by key, and a scalar or a value of another kind is
replaced by the overlay. Two lists either merge position by position or the
overlay's list takes the place of the base's.
-/

namespace Bitpress

/-- How two lists meet in a deep merge. -/
inductive ListMerge
  /-- Maps in one position merge, anything else is taken from the overlay; the longer list's
  other positions are kept. -/
  | indexWise
  | replace
deriving DecidableEq

namespace Tree

mutual

/-- The tree `base` with `overlay` merged into it. -/
def merge (lists : ListMerge) (base overlay : Tree) : Tree :=
  match overlay with
  | .map above =>
    match base with
    | .map entries => .map (mergeEntries lists entries above)
    | _ => .map above
  | .list above =>
    match base, lists with
    | .list items, .indexWise => .list (mergeItems lists items above)
    | _, _ => .list above
  | other => other

/-- The entries of the overlay, from the first on, merged into a table. -/
def mergeEntries (lists : ListMerge) (base : List (String × Tree)) (overlay : List (String × Tree)) :
    List (String × Tree) :=
  match overlay with
  | [] => base
  | (key, value) :: rest =>
    match Table.valueAt? base key with
    | some there => mergeEntries lists (Table.put base key (merge lists there value)) rest
    | none => mergeEntries lists (Table.put base key value) rest

/-- Position by position: two maps merge, anything else is replaced. -/
def mergeItems (lists : ListMerge) (base overlay : List Tree) : List Tree :=
  match base, overlay with
  | items, [] => items
  | [], items => items
  | b :: bs, o :: os =>
    (if b.isMap && o.isMap then merge lists b o else o) :: mergeItems lists bs os
termination_by structural overlay

end

end Tree

/-- Merges two tables of trees. -/
def Table.merge (lists : ListMerge) (base overlay : Table Tree) : Table Tree :=
  Tree.mergeEntries lists base overlay

end Bitpress
