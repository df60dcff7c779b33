import Bitpress.Proofs.Layering
import Bitpress.Proofs.Merge

/-!
What deep merging comes to.

A tree that was merged in changes nothing when it is merged in again
(`Tree.merge_again`). Two maps keep all their keys, those of the base first, and two
lists that merge position by position keep all their positions
(`Tree.merge_laws`). Trees may be merged before or after they are turned into
variables (`Context.ofTable_merge`).
-/

namespace Bitpress

namespace Tree

variable {lists : ListMerge} {t o : Tree} {base above : Table Tree} {items others : List Tree}

mutual

/-- No map in the tree, at any depth, has a key twice. -/
def KeyedThroughout : Tree → Prop
  | .list items => ItemsKeyed items
  | .map entries => Table.Distinct entries ∧ EntriesKeyed entries
  | _ => True

def ItemsKeyed : List Tree → Prop
  | [] => True
  | t :: rest => t.KeyedThroughout ∧ ItemsKeyed rest

def EntriesKeyed : List (String × Tree) → Prop
  | [] => True
  | (_, t) :: rest => t.KeyedThroughout ∧ EntriesKeyed rest

end

/-! ### One level -/

/-- What an item of a list makes of the item in its place. -/
def meetItem (lists : ListMerge) (there item : Tree) : Tree :=
  if there.isMap && item.isMap then merge lists there item else item

theorem merge_null (lists : ListMerge) (o : Tree) : merge lists .null o = o := by
  cases o <;> (unfold merge; rfl)

/-- Whatever is below it, a map comes to a merge of two maps. -/
theorem merge_over (lists : ListMerge) (t : Tree) (h : above.Distinct) :
    ∃ below, merge lists t (.map above) = .map (Table.mergeWith (merge lists) below above) := by
  cases t with
  | map base => exact ⟨base, merge_map lists base above⟩
  | _ =>
    refine ⟨[], ?_⟩
    rw [Table.mergeWith_nil_left h]
    unfold merge
    rfl

theorem merge_items (items others : List Tree) :
    merge .indexWise (.list items) (.list others) = .list (mergeItems .indexWise items others) := by
  unfold merge
  rfl

theorem merge_replaced (t : Tree) (others : List Tree) : merge .replace t (.list others) = .list others := by
  cases t <;> (unfold merge; rfl)

theorem mergeItems_nil_left (lists : ListMerge) (others : List Tree) : mergeItems lists [] others = others := by
  cases others <;> (unfold mergeItems; rfl)

theorem mergeItems_nil_right (lists : ListMerge) (items : List Tree) : mergeItems lists items [] = items := by
  unfold mergeItems
  rfl

theorem mergeItems_cons (lists : ListMerge) (t o : Tree) (items others : List Tree) :
    mergeItems lists (t :: items) (o :: others) = meetItem lists t o :: mergeItems lists items others := by
  rw [mergeItems]
  rfl

/-- Whatever is below it, a list that merges by positions comes to a merge of two lists. -/
theorem merge_over_list (t : Tree) (others : List Tree) :
    ∃ items, merge .indexWise t (.list others) = .list (mergeItems .indexWise items others) := by
  cases t with
  | list items => exact ⟨items, merge_items items others⟩
  | _ =>
    refine ⟨[], ?_⟩
    rw [mergeItems_nil_left]
    unfold merge
    rfl

theorem length_mergeItems (items others : List Tree) :
    (mergeItems lists items others).length = max items.length others.length := by
  induction others generalizing items with
  | nil => rw [mergeItems_nil_right, List.length_nil, Nat.max_zero]
  | cons o others ih =>
    cases items with
    | nil => rw [mergeItems_nil_left, List.length_nil, Nat.zero_max]
    | cons t items => rw [mergeItems_cons, List.length_cons, ih, List.length_cons, List.length_cons, Nat.succ_max_succ]

theorem getElem?_mergeItems (items others : List Tree) (i : Nat) :
    (mergeItems lists items others)[i]? = (items[i]?).merge (meetItem lists) others[i]? := by
  induction others generalizing items i with
  | nil => rw [mergeItems_nil_right, List.getElem?_nil, Option.merge_none_right]
  | cons o others ih =>
    cases items with
    | nil => rw [mergeItems_nil_left, List.getElem?_nil, Option.merge_none_left]
    | cons t items =>
      rw [mergeItems_cons]
      cases i with
      | zero => rfl
      | succ i => exact ih items i

/-! ### The same overlay twice -/

theorem merge_self (h : ∀ t, merge lists (merge lists t o) o = merge lists t o) : merge lists o o = o := by
  have hnull := h .null
  rwa [merge_null] at hnull

/-- What changes nothing the second time it is merged in does so in its place in a list, too. -/
theorem meetItem_again (h : ∀ t, merge lists (merge lists t o) o = merge lists t o) (t : Tree) :
    meetItem lists (meetItem lists t o) o = meetItem lists t o := by
  cases o with
  | map above =>
    cases t with
    | map base =>
      have hmap := h (.map base)
      rw [merge_map] at hmap
      show meetItem lists (merge lists (.map base) (.map above)) (.map above) = merge lists (.map base) (.map above)
      rw [merge_map]
      exact hmap
    | _ => exact merge_self h
  | _ => cases t <;> rfl

-- Only parts of the overlay are merged in again, so the induction is on the overlay, over whatever is below.
mutual

/-- A tree that was merged in changes nothing the second time. -/
theorem merge_again (lists : ListMerge) :
    (o : Tree) → o.KeyedThroughout → ∀ t, merge lists (merge lists t o) o = merge lists t o
  | .map above, h, t => by
    obtain ⟨below, hbelow⟩ := merge_over lists t h.1
    rw [hbelow, merge_map, Table.mergeWith_mergeWith h.1 fun e he => ?_]
    have hvalue := entries_again lists above h.2 e he
    exact ⟨merge_self hvalue, hvalue⟩
  | .list others, h, t => by
    cases lists with
    | replace => rw [merge_replaced, merge_replaced]
    | indexWise =>
      obtain ⟨items, hitems⟩ := merge_over_list t others
      rw [hitems, merge_items, mergeItems_again .indexWise others h items]
  | .null, _, _ => by unfold merge; rfl
  | .bool _, _, _ => by unfold merge; rfl
  | .num _, _, _ => by unfold merge; rfl
  | .str _, _, _ => by unfold merge; rfl

theorem mergeItems_again (lists : ListMerge) : (others : List Tree) → ItemsKeyed others → ∀ items,
    mergeItems lists (mergeItems lists items others) others = mergeItems lists items others
  | [], _, items => by rw [mergeItems_nil_right, mergeItems_nil_right]
  | o :: others, h, items => by
    have hfirst := meetItem_again (merge_again lists o h.1)
    have hrest := mergeItems_again lists others h.2
    cases items with
    | nil =>
      have hitem : meetItem lists o o = o := hfirst .null
      have hothers := hrest []
      rw [mergeItems_nil_left] at hothers
      rw [mergeItems_nil_left, mergeItems_cons, hitem, hothers]
    | cons t items => rw [mergeItems_cons, mergeItems_cons, hfirst, hrest]

theorem entries_again (lists : ListMerge) : (entries : List (String × Tree)) → EntriesKeyed entries →
    ∀ e ∈ entries, ∀ t, merge lists (merge lists t e.2) e.2 = merge lists t e.2
  | [], _, _, he => by cases he
  | (_, o) :: rest, h, e, he => by
    rcases List.mem_cons.mp he with rfl | he
    · exact merge_again lists o h.1
    · exact entries_again lists rest h.2 e he

end

/-! ### All laws -/

/-- What two maps come to: all their keys, those of the base first, and under each key the values merged. -/
structure MergedMaps (lists : ListMerge) (base above merged : Table Tree) : Prop where
  order : merged.keyList = base.keyList ++ above.keyList.filter fun key => key ∉ base.keyList
  kept : ∀ key, key ∈ merged.keyList ↔ key ∈ base.keyList ∨ key ∈ above.keyList
  values : ∀ key, merged.valueAt? key = (base.valueAt? key).merge (merge lists) (above.valueAt? key)

/-- What two lists come to by their positions: two items meet, and an item alone stays as it is. -/
structure MergedItems (items others merged : List Tree) : Prop where
  length : merged.length = max items.length others.length
  kept : ∀ i : Nat, others.length ≤ i → merged[i]? = items[i]?
  added : ∀ i : Nat, items.length ≤ i → merged[i]? = others[i]?
  met : ∀ (i : Nat) (t o : Tree), items[i]? = some t → others[i]? = some o → merged[i]? = some (meetItem .indexWise t o)

theorem mergedMaps (lists : ListMerge) (base : Table Tree) (h : above.Distinct) :
    MergedMaps lists base above (Table.mergeWith (merge lists) base above) where
  order := Table.keyList_mergeWith h
  kept key := by
    rw [Table.keyList_mergeWith h, List.mem_append, List.mem_filter, decide_eq_true_eq]
    by_cases hkey : key ∈ base.keyList <;> simp [hkey]
  values := Table.valueAt?_mergeWith h

theorem mergedItems (items others : List Tree) : MergedItems items others (mergeItems .indexWise items others) where
  length := length_mergeItems items others
  kept i h := by rw [getElem?_mergeItems, List.getElem?_eq_none h, Option.merge_none_right]
  added i h := by rw [getElem?_mergeItems, List.getElem?_eq_none h, Option.merge_none_left]
  met i t o ht ho := by rw [getElem?_mergeItems, ht, ho]; rfl

/-- Merging an overlay again changes nothing. The empty map changes no map, below it or above. Two maps keep
all their keys in order, and two lists that merge by positions keep all their positions. -/
theorem merge_laws (lists : ListMerge) (base : Tree) {overlay : Tree} (h : overlay.KeyedThroughout) :
    merge lists (merge lists base overlay) overlay = merge lists base overlay ∧
      (overlay.isMap → merge lists (.map []) overlay = overlay) ∧
      (base.isMap → merge lists base (.map []) = base) ∧
      (∀ below above, base = .map below → overlay = .map above →
        ∃ merged, merge lists base overlay = .map merged ∧ MergedMaps lists below above merged) ∧
      ∀ items others, base = .list items → overlay = .list others →
        ∃ merged, merge .indexWise base overlay = .list merged ∧ MergedItems items others merged := by
  refine ⟨merge_again lists overlay h base, fun hmap => ?_, fun hmap => ?_, ?_, ?_⟩
  · cases overlay with
    | map above => exact merge_empty_left lists (keyed_map.mpr h.1)
    | _ => cases hmap
  · cases base with
    | map below => exact merge_map lists below []
    | _ => cases hmap
  · rintro below above rfl rfl
    exact ⟨_, merge_map lists below above, mergedMaps lists below h.1⟩
  · rintro items others rfl rfl
    exact ⟨_, merge_items items others, mergedItems items others⟩

/-- Settings of a list, and a patch for the first two of its items. -/
def settings : Tree :=
  .map [("items", .list [.map [("a", nat 1), ("b", nat 1)], nat 2, nat 3]), ("keep", .bool true)]

def patch : Tree := .map [("more", .null), ("items", .list [.map [("b", nat 2)], nat 9])]

theorem merge_laws_patch : patch.KeyedThroughout ∧
    merge .indexWise settings patch =
      .map [("items", .list [.map [("a", nat 1), ("b", nat 2)], nat 9, nat 3]), ("keep", .bool true), ("more", .null)] ∧
    merge .indexWise (merge .indexWise settings patch) patch = merge .indexWise settings patch := by
  have h : patch.KeyedThroughout :=
    ⟨by decide, trivial, ⟨⟨by decide, trivial, trivial⟩, trivial, trivial⟩, trivial⟩
  exact ⟨h, rfl, (merge_laws .indexWise settings h).1⟩

end Tree

/-! ### Trees as variables -/

namespace ContextValue

theorem ofEntries_eq (entries : Table Tree) : ofEntries entries = entries.mapValues ofTree := by
  induction entries with
  | nil => rfl
  | cons e rest ih => exact congrArg (_ :: ·) ih

mutual

/-- A tree merged over another one, lists being replaced, is the one value laid over the other. -/
theorem ofTree_merge (t o : Tree) : ofTree (Tree.merge .replace t o) = (ofTree t).overlay (ofTree o) := by
  cases o with
  | map above =>
    cases t with
    | map base =>
      rw [Tree.merge_map]
      show map (ofEntries _) = overlay (map (ofEntries base)) (map (ofEntries above))
      rw [overlay_map, ofEntries_eq, ofEntries_eq, ofEntries_eq, Table.mapValues_mergeWith (ofTree_merge_entries above)]
    | _ => rfl
  | list others =>
    rw [Tree.merge_replaced]
    rfl
  | _ => rfl

theorem ofTree_merge_entries (entries : List (String × Tree)) :
    ∀ e ∈ entries, ∀ t, ofTree (Tree.merge .replace t e.2) = (ofTree t).overlay (ofTree e.2) := by
  cases entries with
  | nil => exact fun _ he => by cases he
  | cons first rest =>
    obtain ⟨key, o⟩ := first
    exact List.forall_mem_cons.mpr ⟨fun t => ofTree_merge t o, ofTree_merge_entries rest⟩

end

end ContextValue

/-- Declared variables may be merged before they are turned into values, or after it: the same values stand in
the same order, at every level. -/
theorem Context.ofTable_merge (base above : Table Tree) :
    ofTable (base.merge .replace above) = (ofTable base).merge (ofTable above) :=
  ContextValue.map.inj (ContextValue.ofTree_merge (.map base) (.map above))

end Bitpress
