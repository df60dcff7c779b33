import Bitpress.Proofs.Inheritance.Catalogue
import Bitpress.Proofs.Override

/-!
The shape of a merged target.

Whatever overrides make of the parts of its bases, a target that has been merged
has all the parts that targets have, each under a name of its own and with distinct
keys if it is a map (`shaped_of_tree`). The parts that it declares itself are merged
last, and put back what the overrides of a base have removed.
-/

namespace Bitpress

open Outcome

/-- Maps have distinct keys. -/
structure TargetDecl.Keyed (d : TargetDecl) : Prop where
  context : d.context.Distinct
  queries : d.queries.Distinct
  compose : d.compose.Distinct
  overrides : ∀ o ∈ d.overrides, o.value.Keyed

theorem Legacy.liftKey_distinct {l : Lifted} (h : l.context.Distinct ∧ l.queries.Distinct) (key : String) :
    (liftKey l key).context.Distinct ∧ (liftKey l key).queries.Distinct := by
  unfold liftKey
  split
  · exact h
  · refine ⟨h.1.without key, ?_⟩
    dsimp only
    split
    · exact h.2
    · exact h.2.put key _

/-- The parts that every target has. -/
def TargetSpec.parts : List String := ["context", "queries", "compose"]

theorem TargetDecl.Keyed.toTable_keyed {d : TargetDecl} (h : d.Keyed) :
    ∀ e ∈ (TargetSpec.ofDecl d).toTable, e.2.Keyed := by
  have hlift : (Legacy.lift d.context d.queries).context.Distinct ∧
      (Legacy.lift d.context d.queries).queries.Distinct :=
    Legacy.liftKey_distinct (Legacy.liftKey_distinct ⟨h.context, h.queries⟩ "blocks") "constants"
  have hword : ∀ (name : String) (word : Option String), ∀ e ∈ Encode.optional name .str word, e.2.Keyed := by
    intro name word e he
    cases word with
    | none => cases he
    | some w =>
      cases List.mem_singleton.mp he
      exact fun entries hw => by cases hw
  intro e he
  simp only [TargetSpec.toTable, TargetSpec.ofDecl, List.mem_append, List.mem_cons, List.not_mem_nil, or_false] at he
  rcases he with (he | he) | rfl | rfl | rfl
  · exact hword _ _ e he
  · exact hword _ _ e he
  · exact Tree.keyed_map.mpr hlift.1
  · exact Tree.keyed_map.mpr hlift.2
  · exact Tree.keyed_map.mpr h.compose

theorem TargetSpec.toTable_tidy_blank : (toTable {}).Tidy := by
  refine ⟨(by decide : parts.Nodup), fun e he => ?_⟩
  simp only [toTable, Encode.optional, List.nil_append, List.mem_cons, List.not_mem_nil, or_false] at he
  rcases he with rfl | rfl | rfl <;> exact Tree.keyed_map.mpr List.nodup_nil

namespace Inheritance

variable {hints : MergeHints} {d : TargetDecl} {spec made : Table Tree} {key : String} {value t u : Tree}
  {base : Resolved}

theorem mergePart_eq_ok (h : mergePart hints spec key value = .ok made) :
    made = spec.put key value ∨
      ∃ part, spec.valueAt? key = some part ∧ made = spec.put key (part.merge .indexWise value) := by
  obtain ⟨policy, _, h⟩ := bind_eq_ok.mp h
  split at h
  · rename_i part hpart _
    cases h
    exact .inr ⟨part, hpart, rfl⟩
  · cases h
    exact .inl rfl

theorem mergePart_tidy (hs : spec.Tidy) (hv : value.Keyed) (h : mergePart hints spec key value = .ok made) :
    made.Tidy := by
  rcases mergePart_eq_ok h with rfl | ⟨part, hpart, rfl⟩
  · exact hs.put hv
  · exact hs.put ((hs.keyed_at hpart).merge .indexWise hv)

theorem keyList_mergePart (h : mergePart hints spec key value = .ok made) :
    key ∈ made.keyList ∧ spec.keyList ⊆ made.keyList := by
  have hput : ∀ part : Tree, key ∈ (spec.put key part).keyList ∧ spec.keyList ⊆ (spec.put key part).keyList := by
    intro part
    rw [Table.keyList_put]
    split
    · rename_i hkey
      exact ⟨hkey, List.Subset.refl _⟩
    · exact ⟨List.mem_append_right _ (List.mem_singleton_self key), List.subset_append_left ..⟩
  rcases mergePart_eq_ok h with rfl | ⟨_, _, rfl⟩
  · exact hput _
  · exact hput _

/-- A spec that has all parts of a target. -/
structure Shaped (spec : Table Tree) : Prop where
  tidy : spec.Tidy
  parts : TargetSpec.parts ⊆ spec.keyList

/-- Each part that is merged is there afterwards, and so are the parts that were there before. -/
theorem keyList_mergeParts {entries : Table Tree}
    (h : entries.foldlM (fun acc e => mergePart hints acc e.1 e.2) spec = .ok made) :
    entries.keyList ⊆ made.keyList ∧ spec.keyList ⊆ made.keyList := by
  induction entries generalizing spec with
  | nil =>
    cases h
    exact ⟨List.nil_subset _, List.Subset.refl _⟩
  | cons e rest ih =>
    obtain ⟨next, hnext, h⟩ := bind_eq_ok.mp h
    obtain ⟨hkey, hkept⟩ := keyList_mergePart hnext
    obtain ⟨hrest, hbefore⟩ := ih h
    exact ⟨List.cons_subset.mpr ⟨hbefore hkey, hrest⟩, List.Subset.trans hkept hbefore⟩

theorem mergeOwn_shaped (hd : d.Keyed) (hs : t.Tidy) (h : mergeOwn d t = .ok u) :
    ∃ made : Table Tree, u = .map made ∧ Shaped made := by
  obtain ⟨spec, rfl, hspec⟩ := hs
  obtain ⟨made, hmade, h⟩ := bind_eq_ok.mp h
  cases h
  refine ⟨made, rfl, ?_, List.Subset.trans ?_ (keyList_mergeParts hmade).1⟩
  · exact foldlM_keeps (fun e he _ _ hacc hstep => mergePart_tidy hacc (hd.toTable_keyed e he) hstep) hspec hmade
  · intro key hkey
    simp only [TargetSpec.toTable, Table.keyList, List.map_append, List.mem_append]
    exact .inr hkey

theorem mergeBase_tidy (ht : t.Tidy) (hbase : base.tree.Tidy) (ho : ∀ o ∈ base.overrides, o.value.Keyed)
    (h : mergeBase t base = .ok u) : u.Tidy := by
  obtain ⟨spec, rfl, hspec⟩ := ht
  obtain ⟨above, htree, habove⟩ := hbase
  unfold mergeBase at h
  rw [htree, Tree.merge_map] at h
  exact OverrideDecl.applyAll_tidy ho ⟨_, rfl, hspec.mergeWith habove .indexWise⟩ h

namespace Catalogue

variable {c : Catalogue} {n : Nat} {file : Location}

/-- Every declared target has maps with distinct keys. -/
def Keyed (c : Catalogue) : Prop := ∀ file name d, c.declaration file name = .ok (some d) → d.Keyed

theorem shaped_of_tree (hc : c.Keyed) (hd : d.Keyed) (ht : c.tree n file d = .ok t) :
    ∃ spec : Table Tree, t = .map spec ∧ Shaped spec := by
  induction n using Nat.strongRecOn generalizing file d t with
  | _ n ih =>
    rw [tree, foldWith_eq] at ht
    obtain ⟨bases, hbases, hown⟩ := bind_eq_ok.mp ht
    refine mergeOwn_shaped hd ?_ hown
    refine foldlM_keeps (q := Tree.Tidy) (fun r _ acc next hacc hstep => ?_)
      ⟨_, rfl, TargetSpec.toTable_tidy_blank⟩ hbases
    obtain ⟨b, hb, hmerge⟩ := bind_eq_ok.mp hstep
    obtain ⟨key, _, _, ⟨⟩, hload⟩ := baseWith_eq_ok.mp hb
    obtain ⟨m, declared, rfl, hdeclared, hfold, ho⟩ := load_eq_ok.mp hload
    have hkeyed := hc _ _ _ hdeclared
    obtain ⟨spec, hspec, hshaped⟩ := ih m (Nat.lt_succ_self m) hkeyed hfold
    exact mergeBase_tidy hacc ⟨spec, hspec, hshaped.tidy⟩ (ho ▸ hkeyed.overrides) hmerge

end Catalogue

end Inheritance

end Bitpress
