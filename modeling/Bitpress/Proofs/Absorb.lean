import Bitpress.Collection
import Mathlib.Data.List.Nodup

/-!
Taking over elements.

A collection takes over the elements whose identities it does not have
(`Collection.absorb_items`). So identities stay distinct, what was there stays in
front, and where the same identity means the same element, what is taken over is
just what the collections have together (`Collection.mem_absorbed`).
-/

namespace Bitpress.Collection

variable {α : Type} [Element α] {c : Collection α} {items : List α} {lists : List (List α)} {a : α} {i : ElementId}

theorem hasId_iff : c.hasId i = true ↔ i ∈ c.items.map Element.id := by
  simp only [hasId, List.any_eq_true, beq_iff_eq, List.mem_map]

theorem push_of_new (ha : Element.id a ∉ c.items.map Element.id) : c.push a = .ok ⟨c.items ++ [a]⟩ :=
  if_neg fun hid => ha (hasId_iff.mp hid)

/-- Identities stay distinct when an element is added that has one of its own. -/
theorem nodup_concat (h : (c.items.map Element.id).Nodup) (ha : Element.id a ∉ c.items.map Element.id) :
    ((c.items ++ [a]).map Element.id).Nodup := by
  rw [List.map_append, List.map_singleton, ← List.concat_eq_append]
  exact .concat ha h

theorem absorb_cons : c.absorb (a :: items) =
    if c.hasId (Element.id a) then c.absorb items else absorb ⟨c.items ++ [a]⟩ items := by
  show List.foldl _ (if c.hasId (Element.id a) then c else ⟨c.items ++ [a]⟩) items = _
  split <;> rfl

/-- Of elements with distinct identities, those that are new are taken over in their order. -/
theorem absorb_items (h : (items.map Element.id).Nodup) :
    (c.absorb items).items = c.items ++ items.filter fun a => !c.hasId (Element.id a) := by
  induction items generalizing c with
  | nil => exact (List.append_nil _).symm
  | cons a rest ih =>
    obtain ⟨ha, hrest⟩ := List.nodup_cons.mp h
    rw [absorb_cons, List.filter_cons]
    by_cases hid : c.hasId (Element.id a) = true
    · rw [if_pos hid, ih hrest, hid]
      rfl
    · rw [if_neg hid, ih hrest, Bool.eq_false_iff.mpr hid]
      have hsame : rest.filter (fun b => !hasId ⟨c.items ++ [a]⟩ (Element.id b)) =
          rest.filter fun b => !c.hasId (Element.id b) := by
        refine List.filter_congr fun b hb => ?_
        have hne : Element.id a ≠ Element.id b := fun he => ha (he ▸ List.mem_map_of_mem hb)
        simp [hasId, hne]
      show (c.items ++ [a]) ++ _ = _
      rw [hsame, List.append_assoc]
      rfl

theorem absorb_nodup (h : (c.items.map Element.id).Nodup) : ((c.absorb items).items.map Element.id).Nodup := by
  induction items generalizing c with
  | nil => exact h
  | cons a rest ih =>
    rw [absorb_cons]
    split
    · exact ih h
    · rename_i hid
      exact ih (nodup_concat h fun ha => hid (hasId_iff.mpr ha))

theorem prefix_absorb : c.items <+: (c.absorb items).items := by
  induction items generalizing c with
  | nil => exact List.prefix_refl _
  | cons a rest ih =>
    rw [absorb_cons]
    split
    · exact ih
    · exact (List.prefix_append ..).trans ih

theorem mem_of_mem_absorb (h : a ∈ (c.absorb items).items) : a ∈ c.items ∨ a ∈ items := by
  induction items generalizing c with
  | nil => exact .inl h
  | cons x rest ih =>
    rw [absorb_cons] at h
    split at h
    · exact (ih h).imp id (List.mem_cons_of_mem x)
    · rcases ih h with hc | hrest
      · refine (List.mem_append.mp hc).imp id fun hx => ?_
        rw [List.mem_singleton.mp hx]
        exact List.mem_cons_self ..
      · exact .inr (List.mem_cons_of_mem x hrest)

/-- An identity that is to be taken over is there afterwards. -/
theorem id_mem_absorb (h : a ∈ items) : Element.id a ∈ (c.absorb items).items.map Element.id := by
  induction items generalizing c with
  | nil => cases h
  | cons x rest ih =>
    rw [absorb_cons]
    rcases List.mem_cons.mp h with rfl | h
    · split
      · rename_i hid
        exact (prefix_absorb.map Element.id).subset (hasId_iff.mp hid)
      · exact (prefix_absorb.map Element.id).subset (by simp)
    · split <;> exact ih h

/-! ### From several collections -/

/-- The collection with the new elements of several others, one after the other. -/
def absorbed (c : Collection α) (lists : List (List α)) : Collection α := lists.foldl absorb c

/-- The elements of lists, one list after the other, without those whose identities are there already. -/
def gather (own : List α) (lists : List (List α)) : List α :=
  lists.foldl (fun found items => found ++ items.filter fun a => Element.id a ∉ found.map Element.id) own

theorem absorbed_items (h : ∀ items ∈ lists, (items.map Element.id).Nodup) :
    (c.absorbed lists).items = gather c.items lists := by
  induction lists generalizing c with
  | nil => rfl
  | cons items rest ih =>
    obtain ⟨hitems, hrest⟩ := List.forall_mem_cons.mp h
    have hnew : (c.absorb items).items = c.items ++ items.filter fun a => Element.id a ∉ c.items.map Element.id := by
      rw [absorb_items hitems]
      refine congrArg _ (List.filter_congr fun a _ => ?_)
      simp only [← hasId_iff, Bool.not_eq_true, Bool.decide_eq_false]
    show ((c.absorb items).absorbed rest).items = gather _ rest
    rw [ih hrest, hnew]

/-- Taking over a part of each of several things, one after the other. -/
theorem foldl_absorb {β : Type} (part : β → List α) (xs : List β) :
    xs.foldl (fun c x => c.absorb (part x)) c = c.absorbed (xs.map part) := by
  unfold absorbed
  rw [List.foldl_map]

theorem absorbed_nodup (h : (c.items.map Element.id).Nodup) : ((c.absorbed lists).items.map Element.id).Nodup := by
  induction lists generalizing c with
  | nil => exact h
  | cons items rest ih => exact ih (absorb_nodup h)

theorem prefix_absorbed : c.items <+: (c.absorbed lists).items := by
  induction lists generalizing c with
  | nil => exact List.prefix_refl _
  | cons items rest ih => exact prefix_absorb.trans ih

theorem mem_of_mem_absorbed (h : a ∈ (c.absorbed lists).items) : a ∈ c.items ∨ ∃ items ∈ lists, a ∈ items := by
  induction lists generalizing c with
  | nil => exact .inl h
  | cons items rest ih =>
    rcases ih h with hc | ⟨xs, hxs, ha⟩
    · exact (mem_of_mem_absorb hc).imp id fun ha => ⟨items, List.mem_cons_self .., ha⟩
    · exact .inr ⟨xs, List.mem_cons_of_mem _ hxs, ha⟩

theorem mem_of_mem_foldl {β : Type} {part : β → List α} {xs : List β}
    (h : a ∈ (xs.foldl (fun c x => c.absorb (part x)) c).items) : a ∈ c.items ∨ ∃ x ∈ xs, a ∈ part x := by
  rw [foldl_absorb part xs] at h
  refine (mem_of_mem_absorbed h).imp id fun ⟨items, hitems, ha⟩ => ?_
  obtain ⟨x, hx, rfl⟩ := List.mem_map.mp hitems
  exact ⟨x, hx, ha⟩

theorem id_mem_absorbed (hitems : items ∈ lists) (h : a ∈ items) :
    Element.id a ∈ (c.absorbed lists).items.map Element.id := by
  induction lists generalizing c with
  | nil => cases hitems
  | cons xs rest ih =>
    rcases List.mem_cons.mp hitems with rfl | hitems
    · have hkept : (c.absorb items).items <+: ((c.absorb items).absorbed rest).items := prefix_absorbed
      exact (hkept.map Element.id).subset (id_mem_absorb h)
    · exact ih hitems

/-- Nothing is lost where the same identity means the same element. -/
theorem mem_absorbed {p : α → Prop} (hp : ∀ a b, p a → p b → Element.id a = Element.id b → a = b)
    (hc : ∀ a ∈ c.items, p a) (hlists : ∀ items ∈ lists, ∀ a ∈ items, p a) :
    a ∈ (c.absorbed lists).items ↔ a ∈ c.items ∨ ∃ items ∈ lists, a ∈ items := by
  refine ⟨mem_of_mem_absorbed, fun h => ?_⟩
  rcases h with ha | ⟨items, hitems, ha⟩
  · exact prefix_absorbed.subset ha
  · obtain ⟨b, hb, hid⟩ := List.mem_map.mp (id_mem_absorbed (c := c) hitems ha)
    have hpb : p b := (mem_of_mem_absorbed hb).elim (hc b) fun ⟨xs, hxs, hbxs⟩ => hlists xs hxs b hbxs
    rwa [← hp b a hpb (hlists items hitems a ha) hid]

end Bitpress.Collection
