import Bitpress.Proofs.Compose
import Bitpress.Proofs.Compose.Pipeline
import Mathlib.Data.List.NodupEquivFin

/-!
Groups that take turns.

An item is known by its place: its group and its position there (`Place`). What
interleaves the groups interleaves their places (`mergeGroups_eq_map`). It lists all
of these (`mem_turns`), round by round, and in a round one group after the other
(`turns_ordered`), so each item has the number in the result that its turn has among
all turns (`InTurns`), however long the groups are (`interleave_fair`).
-/

namespace Bitpress

namespace Compose

variable {α : Type} {groups : List (List α)}

/-- Where an item of groups stands. -/
structure Place (groups : List (List α)) where
  group : Fin groups.length
  position : Fin groups[group].length

namespace Place

def item (p : Place groups) : α := groups[p.group][p.position]

/-- The item has its turn earlier: in an earlier round, or in the same round in an earlier group. -/
def Before (p q : Place groups) : Prop :=
  p.position.val < q.position.val ∨ p.position.val = q.position.val ∧ p.group < q.group

theorem Before.asymm {p q : Place groups} (h : p.Before q) : ¬ q.Before p := by
  unfold Before at *
  omega

end Place

/-! ### Places in turns -/

/-- The places of each group. -/
def places (groups : List (List α)) : List (List (Place groups)) :=
  List.ofFn fun g => List.ofFn fun i => ⟨g, i⟩

theorem map_item_places (groups : List (List α)) : (places groups).map (List.map Place.item) = groups := by
  unfold places
  rw [List.map_ofFn]
  refine (congrArg List.ofFn (funext fun g => ?_)).trans List.ofFn_getElem
  exact (List.map_ofFn ..).trans List.ofFn_getElem

/-- Joining does not look at the items. -/
theorem mergeGroups_eq_map (mode : MergeMode) (groups : List (List α)) :
    mergeGroups mode groups = (mergeGroups mode (places groups)).map Place.item := by
  rw [← mergeGroups_map, map_item_places]

/-- The places in the order in which groups take turns. -/
def turns (groups : List (List α)) : List (Place groups) := mergeGroups .interleave (places groups)

theorem mem_turns (p : Place groups) : p ∈ turns groups := by
  refine (mergeGroups_perm .interleave (places groups)).mem_iff.mpr (List.mem_flatten.mpr ?_)
  exact ⟨_, List.mem_ofFn.mpr ⟨p.group, rfl⟩, List.mem_ofFn.mpr ⟨p.position, rfl⟩⟩

theorem place_of_getElem? {g : Fin groups.length} {i : Nat} {p : Place groups}
    (h : (List.ofFn fun j => (⟨g, j⟩ : Place groups))[i]? = some p) : p.group = g ∧ p.position.val = i := by
  rw [List.getElem?_ofFn] at h
  split at h <;> cases h
  exact ⟨rfl, rfl⟩

/-- A round takes what stands at its position, from one group after the other. -/
theorem column_places (groups : List (List α)) (i : Nat) :
    (∀ p ∈ column (places groups) i, p.position.val = i) ∧
      (column (places groups) i).Pairwise fun p q => p.group < q.group := by
  unfold column places
  refine ⟨fun p hp => ?_, List.pairwise_filterMap.mpr (List.pairwise_ofFn.mpr fun g h hlt p hp q hq => ?_)⟩
  · obtain ⟨row, hrow, hp⟩ := List.mem_filterMap.mp hp
    obtain ⟨g, rfl⟩ := List.mem_ofFn.mp hrow
    exact (place_of_getElem? hp).2
  · rwa [(place_of_getElem? hp).1, (place_of_getElem? hq).1]

theorem turns_ordered (groups : List (List α)) : (turns groups).Pairwise Place.Before := by
  refine List.pairwise_flatMap.mpr ⟨fun i _ => ?_, List.pairwise_lt_range.imp fun {i j} hlt p hp q hq => ?_⟩
  · obtain ⟨hposition, hgroups⟩ := column_places groups i
    exact hgroups.imp_of_mem fun hp hq hlt => .inr ⟨(hposition _ hp).trans (hposition _ hq).symm, hlt⟩
  · rw [← (column_places groups i).1 p hp, ← (column_places groups j).1 q hq] at hlt
    exact .inl hlt

/-! ### The result -/

/-- Elements that a list has all of, in an order, are numbered by the list in that order. -/
theorem exists_numbering {β : Type} {r : β → β → Prop} (hasymm : ∀ {b c}, r b c → ¬ r c b) {listed : List β}
    (hordered : listed.Pairwise r) (hall : ∀ b, b ∈ listed) :
    ∃ number : β ≃ Fin listed.length, (∀ b, listed[number b] = b) ∧ ∀ b c, number b < number c ↔ r b c := by
  classical
  have hnodup : listed.Nodup := hordered.imp fun {b c} hr he => by
    subst he
    exact hasymm hr hr
  obtain ⟨number, hnumber⟩ : ∃ number : β ≃ Fin listed.length, ∀ b, listed[number b] = b :=
    ⟨(hnodup.getEquivOfForallMemList listed hall).symm,
      (hnodup.getEquivOfForallMemList listed hall).apply_symm_apply⟩
  have hlt : ∀ b c, number b < number c → r b c := fun b c h => by
    have hr := List.pairwise_iff_getElem.mp hordered _ _ (number b).isLt (number c).isLt h
    rwa [← hnumber b, ← hnumber c]
  refine ⟨number, hnumber, fun b c => ⟨hlt b c, fun hr => ?_⟩⟩
  rcases lt_trichotomy (number b) (number c) with h | h | h
  · exact h
  · cases number.injective h
    exact absurd hr (hasymm hr)
  · exact absurd hr (hasymm (hlt c b h))

/-- A list has the items of groups, that of each place once, in the order of their turns. -/
def InTurns (groups : List (List α)) (items : List α) : Prop :=
  ∃ number : Place groups ≃ Fin items.length,
    (∀ p, items[number p] = p.item) ∧ ∀ p q, number p < number q ↔ p.Before q

theorem InTurns.sublist {items group : List α} (h : InTurns groups items) (hgroup : group ∈ groups) :
    group.Sublist items := by
  obtain ⟨number, hitem, hlt⟩ := h
  obtain ⟨g, hg, rfl⟩ := List.getElem_of_mem hgroup
  have hmono : StrictMono fun i => number ⟨⟨g, hg⟩, i⟩ := fun i j hij => (hlt _ _).mpr (.inl hij)
  exact List.sublist_iff_exists_fin_orderEmbedding_get_eq.mpr
    ⟨OrderEmbedding.ofStrictMono _ hmono, fun i => (hitem ⟨⟨g, hg⟩, i⟩).symm⟩

theorem inTurns_interleave (groups : List (List α)) : InTurns groups (mergeGroups .interleave groups) := by
  obtain ⟨number, hitem, hlt⟩ := exists_numbering Place.Before.asymm (turns_ordered groups) mem_turns
  rw [mergeGroups_eq_map]
  refine ⟨number.trans (finCongr (List.length_map _).symm), fun p => ?_, hlt⟩
  exact (List.getElem_map ..).trans (congrArg Place.item (hitem p))

/-- **Interleaving is a fair shuffle.** It loses and repeats nothing, leaves the items of a group in their order, and
puts an item before another exactly if it stands at an earlier position of its group, or at the same position of an
earlier group. -/
theorem interleave_fair (groups : List (List α)) :
    (mergeGroups .interleave groups).Perm groups.flatten ∧
      (∀ group ∈ groups, group.Sublist (mergeGroups .interleave groups)) ∧
      InTurns groups (mergeGroups .interleave groups) :=
  ⟨mergeGroups_perm .interleave groups, fun _ => (inTurns_interleave groups).sublist, inTurns_interleave groups⟩

example : mergeGroups .interleave [["a", "b"], [], ["c", "d", "e"]] = ["a", "c", "b", "d", "e"] := by decide

end Compose

end Bitpress
