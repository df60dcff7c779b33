import Mathlib.Data.List.Chain
import Mathlib.Data.List.Nodup
import Mathlib.Data.List.Perm.Subperm

/-!
Trails: the places that a search has entered and not left yet, outermost first,
each leading to the next. A place that is on the trail already closes a walk.
-/

namespace Bitpress

variable {α : Type} {β : Type} {leads leads' : α → α → Prop} {name : α → β} {trail : List α} {a : α}

/-- Places that each lead to the next, no two of one name. -/
structure Trail (leads : α → α → Prop) (name : α → β) (trail : List α) : Prop where
  leads : trail.IsChain leads
  distinct : (trail.map name).Nodup

/-- A walk back to the place where it starts, and to no other place twice. -/
structure ClosedWalk (leads : α → α → Prop) (name : α → β) (chain : List α) : Prop where
  closed : ∃ first middle last, chain = first :: middle ++ [last] ∧ name first = name last
  distinct : (chain.dropLast.map name).Nodup
  leads : chain.IsChain leads

namespace Trail

theorem nil : Trail leads name [] := ⟨.nil, .nil⟩

/-- Where every place leads anywhere, a trail is any list of places of different names. -/
theorem of_nodup (h : (trail.map name).Nodup) : Trail (fun _ _ => True) name trail :=
  ⟨(List.pairwise_of_forall fun _ _ => trivial).isChain, h⟩

theorem imp (h : Trail leads name trail) (himp : ∀ a b, leads a b → leads' a b) : Trail leads' name trail :=
  ⟨h.leads.imp himp, h.distinct⟩

/-- A new place that the last one leads to can be entered. -/
theorem enter (h : Trail leads name trail) (ha : ∀ b ∈ trail.getLast?, leads b a)
    (hnew : ∀ b ∈ trail, name b ≠ name a) : Trail leads name (trail ++ [a]) := by
  refine ⟨List.isChain_append.mpr ⟨h.leads, .singleton _, fun b hb c hc => ?_⟩, ?_⟩
  · cases Option.mem_some_iff.mp hc
    exact ha b hb
  · rw [List.map_append, List.map_singleton, ← List.concat_eq_append]
    refine .concat (fun hmem => ?_) h.distinct
    obtain ⟨b, hb, hsame⟩ := List.mem_map.mp hmem
    exact hnew b hb hsame

/-- The trail before the last place that was entered, which is not on it. -/
theorem before {b : α} (h : Trail leads name (trail ++ [b])) : Trail leads name trail ∧ b ∉ trail := by
  have hdistinct := h.distinct
  rw [List.map_append, List.nodup_append] at hdistinct
  exact ⟨⟨(List.isChain_append.mp h.leads).1, hdistinct.1⟩, fun hb =>
    hdistinct.2.2 _ (List.mem_map_of_mem hb) _ (List.mem_singleton_self _) rfl⟩

/-- A place that is on the trail already closes the walk from there on. -/
theorem close (h : Trail leads name trail) (ha : ∀ b ∈ trail.getLast?, leads b a) {i : Nat} (hi : i < trail.length)
    (hname : name trail[i] = name a) : ClosedWalk leads name (trail.drop i ++ [a]) := by
  refine ⟨⟨trail[i], trail.drop (i + 1), a, by rw [List.drop_eq_getElem_cons hi], hname⟩, ?_, ?_⟩
  · rw [List.dropLast_concat, List.map_drop]
    exact h.distinct.sublist (List.drop_sublist _ _)
  · refine List.isChain_append.mpr ⟨h.leads.drop i, .singleton _, fun b hb c hc => ?_⟩
    cases Option.mem_some_iff.mp hc
    rw [List.getLast?_drop, if_neg (Nat.not_le.mpr hi)] at hb
    exact ha b hb

/-- A trail through some places is no longer than they are many. -/
theorem length_le (h : Trail leads name trail) {places : List β} (hplaces : ∀ b ∈ trail, name b ∈ places) :
    trail.length ≤ places.length := by
  have hsub : trail.map name ⊆ places := fun x hx => by
    obtain ⟨b, hb, rfl⟩ := List.mem_map.mp hx
    exact hplaces b hb
  have hlength := (List.subperm_of_subset h.distinct hsub).length_le
  rwa [List.length_map] at hlength

end Trail

end Bitpress
