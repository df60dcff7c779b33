import Bitpress.Proofs.Override.Place

/-!
Laws of merging trees and of changing them at a path.

Two maps merge key by key (`merge_map`), so a map that is merged into nothing stays
as it is (`merge_empty_left`). Neither merging nor a change at a path makes a map
have a key twice (`Keyed`).
-/

namespace Bitpress

namespace Tree

variable {lists : ListMerge} {base above : Table Tree} {t u : Tree}

theorem mergeEntries_eq (lists : ListMerge) (base above : List (String × Tree)) :
    mergeEntries lists base above = Table.mergeWith (merge lists) base above := by
  induction above generalizing base with
  | nil => rfl
  | cons e rest ih =>
    obtain ⟨key, value⟩ := e
    unfold mergeEntries
    show _ = Table.mergeWith (merge lists) (Table.put base key (Table.meetAt (merge lists) base key value)) rest
    unfold Table.meetAt
    cases Table.valueAt? base key with
    | none => exact ih _
    | some there => exact ih _

theorem merge_map (lists : ListMerge) (base above : Table Tree) :
    merge lists (.map base) (.map above) = .map (Table.mergeWith (merge lists) base above) := by
  rw [← mergeEntries_eq]
  rfl

/-- If a tree is a map, its keys are distinct. -/
def Keyed (t : Tree) : Prop := ∀ entries, t = .map entries → Table.Distinct entries

theorem keyed_map : (map base).Keyed ↔ base.Distinct := by
  refine ⟨fun h => h base rfl, fun h entries he => ?_⟩
  cases he
  exact h

theorem keyed_of_ne (h : ∀ entries, t ≠ .map entries) : t.Keyed := fun entries he => absurd he (h entries)

theorem Keyed.merge (lists : ListMerge) (ht : t.Keyed) (hu : u.Keyed) : (merge lists t u).Keyed := by
  cases u with
  | map above =>
    cases t with
    | map base =>
      rw [merge_map]
      exact keyed_map.mpr ((keyed_map.mp ht).mergeWith above)
    | _ => exact hu
  | list above =>
    unfold Tree.merge
    split <;> exact fun entries he => by cases he
  | _ => exact hu

theorem merge_empty_left (lists : ListMerge) (h : t.Keyed) : merge lists (.map []) t = t := by
  cases t with
  | map entries => rw [merge_map, Table.mergeWith_nil_left (keyed_map.mp h)]
  | _ => rfl

/-- The empty map, merged over a tree, leaves a map as it is and makes anything else empty. -/
theorem table?_merge_empty (lists : ListMerge) (t : Tree) :
    (merge lists t (.map [])).table?.getD [] = t.table?.getD [] := by
  cases t with
  | map entries => rw [merge_map]; rfl
  | _ => rfl

end Tree

/-! ### Specs -/

/-- A table of parts, each under a name of its own and with distinct keys if it is a map. -/
structure Table.Tidy (spec : Table Tree) : Prop where
  distinct : spec.Distinct
  keyed : ∀ e ∈ spec, e.2.Keyed

section Tidy
variable {spec above : Table Tree} {key : String} {part : Tree}

theorem Table.Tidy.keyed_at (h : spec.Tidy) (hpart : spec.valueAt? key = some part) : part.Keyed :=
  h.keyed _ (Table.mem_of_valueAt? hpart)

theorem Table.Tidy.put (h : spec.Tidy) (hpart : part.Keyed) : Table.Tidy (spec.put key part) :=
  ⟨h.distinct.put key part, Table.forall_put h.keyed hpart⟩

theorem Table.Tidy.assign (h : spec.Tidy) {made : Option Tree} (hmade : ∀ u ∈ made, u.Keyed) :
    Table.Tidy (spec.assign key made) :=
  ⟨h.distinct.assign key made, Table.forall_assign h.keyed hmade⟩

theorem Table.Tidy.mergeWith (h : spec.Tidy) (habove : above.Tidy) (lists : ListMerge) :
    Table.Tidy (Table.mergeWith (Tree.merge lists) spec above) :=
  ⟨h.distinct.mergeWith above,
    Table.forall_mergeWith h.keyed habove.keyed fun _ _ hv hw => hv.merge lists hw⟩

end Tidy

namespace Tree

variable {t : Tree}

/-- A map that is tidy as a spec. -/
def Tidy (t : Tree) : Prop := ∃ spec : Table Tree, t = .map spec ∧ spec.Tidy

/-! ### Changes at a path -/

theorem Keyed.changeStep (h : t.Keyed) (s : Segment) (change : Tree → Tree) : (t.changeStep s change).Keyed := by
  unfold Tree.changeStep
  split
  · split
    · exact keyed_map.mpr ((keyed_map.mp h).put _ _)
    · exact h
  · exact fun entries he => by cases he
  · exact h

theorem Keyed.changeAt (h : t.Keyed) (path : List Segment) {change : Tree → Tree}
    (hchange : ∀ u : Tree, u.Keyed → (change u).Keyed) : (t.changeAt path change).Keyed := by
  cases path with
  | nil => exact hchange t h
  | cons s rest => exact h.changeStep s _

end Tree

theorem OverridePath.operate_keyed (op : OverrideOp) (value : Tree) {node : Tree} (h : node.Keyed) (s : Segment) :
    (operate op value node s).Keyed := by
  unfold operate
  split
  · split
    · exact Tree.keyed_map.mpr ((Tree.keyed_map.mp h).put _ _)
    · split <;> exact Tree.keyed_map.mpr ((Tree.keyed_map.mp h).put _ _)
    · exact Tree.keyed_map.mpr ((Tree.keyed_map.mp h).without _)
    · exact h
  · split
    · exact fun entries he => by cases he
    · exact fun entries he => by cases he
    · exact fun entries he => by cases he
    · exact h

end Bitpress
