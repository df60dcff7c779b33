import Bitpress.Proofs.Compose.Kept
import Bitpress.Proofs.Legacy
import Bitpress.Proofs.Override
import Bitpress.Preset
import Mathlib.Data.List.Nodup

/-!
The tree of a preset in two spellings.

A preset whose older queries are moved to its queries is laid over the bit's
defaults in another way: there they may meet a query of the defaults, which they do
not meet among the variables. If nothing else has to do with them
(`PresetDecl.Apart`), both trees are the same but for the move
(`PresetDecl.tree_respelled`).
-/

namespace Bitpress

open Outcome

/-! ### Overrides -/

/-- Whether a path leads to no part that holds variables or queries, but on to one of some names in it. -/
def OverridePath.spared (keep : String → Bool) (p : OverridePath) : Bool :=
  match p.segments with
  | [.key part] => part ∉ ["context", "queries"]
  | .key part :: .key k :: _ => part ∉ ["context", "queries"] || keep k
  | _ => true

/-- A path leads to no part that holds variables or queries, but on to one of some names in it. -/
def OverridePath.Spares (keep : String → Bool) (p : OverridePath) : Prop :=
  ∀ part ∈ ["context", "queries"], p.segments ≠ [.key part] ∧
    ∀ k below, p.segments = .key part :: .key k :: below → keep k = true

instance (keep : String → Bool) (p : OverridePath) : Decidable (p.Spares keep) :=
  decidable_of_iff (p.spared keep = true) <| by
    unfold OverridePath.spared OverridePath.Spares
    split
    · rename_i part hsegments
      simp [hsegments]
    · rename_i part k below hsegments
      simp only [hsegments, Bool.or_eq_true, decide_eq_true_eq]
      refine ⟨fun h part' hpart => ⟨by simp, fun k' below' he => ?_⟩, fun h => ?_⟩
      · cases he
        exact h.resolve_left (not_not.mpr hpart)
      · exact or_iff_not_imp_left.mpr fun hpart => (h part (not_not.mp hpart)).2 k below rfl
    · rename_i hone hmore
      exact ⟨fun _ part _ => ⟨hone part, fun k below he => (hmore part k below he).elim⟩, fun _ => rfl⟩
/-- An override has to do with variables and queries of some names only. -/
def OverrideDecl.Spares (keep : String → Bool) (o : OverrideDecl) : Prop :=
  ∀ path, OverridePath.parse o.path = .ok path → path.withinSpec.Spares keep

instance (keep : String → Bool) (o : OverrideDecl) : Decidable (o.Spares keep) := Outcome.decidableGood _

namespace OverridePath

variable (p : OverridePath) (key : String) {k : String} {path : List Segment} {last : Segment}

/-- A path that goes on to a key of a part changes nothing but what stands there. -/
theorem changeBelow_key {below : List Segment} (h : path ++ [last] = .key k :: below) (op : OverrideOp) (value : Tree) :
    ∃ change : Option Tree → Outcome (Option Tree), ∀ entries : Table Tree,
      p.changeBelow op value key path last (some (.map entries)) = do
        return some (.map (entries.assign k (← change (entries.valueAt? k)))) := by
  cases path with
  | nil =>
    cases h
    refine ⟨fun part => .ok (changePart op value part), fun entries => ?_⟩
    exact congrArg (fun t => Except.ok (some t)) (operate_key op value entries k)
  | cons first rest =>
    cases h
    refine ⟨fun part => part.elim (.error (p.fault ("\u0060" ++ walked key (.key k) ++ "\u0060 does not exist")))
      fun there => do
        p.checkLast op (← p.walk (walked key (.key k)) there rest) last
        return some (there.changeAt rest fun node => operate op value node last), fun entries => ?_⟩
    simp only [changeBelow, walk, Tree.step?, Tree.changeAt, Tree.changeStep]
    cases entries.valueAt? k with
    | none => rfl
    | some there =>
      simp only [Option.elim_some, bind_assoc, pure_bind]
      rfl

/-- A map has no places. -/
theorem changeBelow_index {n : Nat} {below : List Segment} (h : path ++ [last] = .index n :: below) (op : OverrideOp)
    (value : Tree) (entries : Table Tree) : ∃ e, p.changeBelow op value key path last (some (.map entries)) = .error e := by
  cases path with
  | nil =>
    cases h
    exact ⟨_, rfl⟩
  | cons first rest =>
    cases h
    exact ⟨_, rfl⟩

end OverridePath

/-- Two specs that differ in where some older queries stand: among the variables, or among the queries. -/
structure Spellings (keep : String → Bool) (older moved : Table Tree) (spec spec' : Table Tree) : Prop where
  left : spec.Distinct
  right : spec'.Distinct
  others : ∀ part, part ∉ ["context", "queries"] → spec.valueAt? part = spec'.valueAt? part
  context : ∃ c : Table Tree, c.Distinct ∧ c.dropped keep = older ∧ spec.valueAt? "context" = some (.map c) ∧
    spec'.valueAt? "context" = some (.map (c.kept keep))
  queries : ∃ q : Table Tree, q.dropped keep = moved ∧ spec.valueAt? "queries" = some (.map (q.kept keep)) ∧
    spec'.valueAt? "queries" = some (.map q)

/-- Both fail, or both come to specs that differ in the same way. -/
def SpelledAlike (keep : String → Bool) (older moved : Table Tree) (r r' : Outcome Tree) : Prop :=
  (∃ e e', r = .error e ∧ r' = .error e') ∨
    ∃ spec spec', r = .ok (.map spec) ∧ r' = .ok (.map spec') ∧ Spellings keep older moved spec spec'

namespace Spellings

variable {keep : String → Bool} {older moved spec spec' : Table Tree} {k : String}

/-- Another part changes. -/
theorem assign (h : Spellings keep older moved spec spec') {part : String} (hpart : part ∉ ["context", "queries"])
    (made : Option Tree) : Spellings keep older moved (spec.assign part made) (spec'.assign part made) := by
  have hother : ∀ name ∈ ["context", "queries"], ∀ s : Table Tree, s.Distinct →
      (s.assign part made).valueAt? name = s.valueAt? name := fun name hname s hs => by
    have hne : name ≠ part := fun hsame => hpart (hsame ▸ hname)
    rw [Table.valueAt?_assign hs, if_neg hne]
  refine ⟨h.left.assign part made, h.right.assign part made, fun name hname => ?_, ?_, ?_⟩
  · rw [Table.valueAt?_assign h.left, Table.valueAt?_assign h.right, h.others name hname]
  · rw [hother _ (by simp) _ h.left, hother _ (by simp) _ h.right]
    exact h.context
  · rw [hother _ (by simp) _ h.left, hother _ (by simp) _ h.right]
    exact h.queries

theorem maps (h : Spellings keep older moved spec spec') {part : String} (hpart : part ∈ ["context", "queries"]) :
    ∃ entries entries' : Table Tree, spec.valueAt? part = some (.map entries) ∧
      spec'.valueAt? part = some (.map entries') := by
  simp only [List.mem_cons, List.not_mem_nil, or_false] at hpart
  rcases hpart with rfl | rfl
  · obtain ⟨c, -, -, hc, hc'⟩ := h.context
    exact ⟨_, _, hc, hc'⟩
  · obtain ⟨q, -, hq, hq'⟩ := h.queries
    exact ⟨_, _, hq, hq'⟩

/-- In the variables or the queries, something changes that is not moved. -/
theorem change (h : Spellings keep older moved spec spec') {part : String} (hpart : part ∈ ["context", "queries"])
    (hk : keep k = true) : ∃ entries entries' : Table Tree,
      spec.valueAt? part = some (.map entries) ∧ spec'.valueAt? part = some (.map entries') ∧
      entries.valueAt? k = entries'.valueAt? k ∧ ∀ made, Spellings keep older moved
        (spec.assign part (some (.map (entries.assign k made)))) (spec'.assign part (some (.map (entries'.assign k made)))) := by
  obtain ⟨c, hdistinct, holder, hc, hc'⟩ := h.context
  obtain ⟨q, hmoved, hq, hq'⟩ := h.queries
  have hothers : ∀ name, name ∉ ["context", "queries"] → ∀ v v' : Tree,
      (spec.put part v).valueAt? name = (spec'.put part v').valueAt? name := fun name hname v v' => by
    have hne : part ≠ name := fun hsame => hname (hsame ▸ hpart)
    rw [Table.valueAt?_put, Table.valueAt?_put, if_neg hne.symm, if_neg hne.symm, h.others name hname]
  simp only [List.mem_cons, List.not_mem_nil, or_false] at hpart
  rcases hpart with rfl | rfl
  · refine ⟨c, c.kept keep, hc, hc', (Table.valueAt?_kept hk c).symm, fun made => ⟨h.left.put _ _, h.right.put _ _,
      fun name hname => hothers name hname _ _, ⟨c.assign k made, hdistinct.assign k made, ?_, ?_, ?_⟩, q, hmoved, ?_, ?_⟩⟩
    · rw [Table.dropped_assign hk, holder]
    · exact Table.valueAt?_put_self ..
    · rw [Table.kept_assign hk]
      exact Table.valueAt?_put_self ..
    · exact (Table.valueAt?_put_of_ne _ _ (by decide)).trans hq
    · exact (Table.valueAt?_put_of_ne _ _ (by decide)).trans hq'
  · refine ⟨q.kept keep, q, hq, hq', Table.valueAt?_kept hk q, fun made => ⟨h.left.put _ _, h.right.put _ _,
      fun name hname => hothers name hname _ _, ⟨c, hdistinct, holder, ?_, ?_⟩, q.assign k made, ?_, ?_, ?_⟩⟩
    · exact (Table.valueAt?_put_of_ne _ _ (by decide)).trans hc
    · exact (Table.valueAt?_put_of_ne _ _ (by decide)).trans hc'
    · rw [Table.dropped_assign hk, hmoved]
    · rw [Table.kept_assign hk]
      exact Table.valueAt?_put_self ..
    · exact Table.valueAt?_put_self ..

end Spellings

/-! ### Overrides on both trees -/

namespace OverrideDecl

variable {keep : String → Bool} {older moved spec spec' : Table Tree} {o : OverrideDecl}

theorem apply_spelled (ho : o.Spares keep) (h : Spellings keep older moved spec spec') :
    SpelledAlike keep older moved (o.apply (.map spec)) (o.apply (.map spec')) := by
  unfold OverrideDecl.apply
  cases hparse : OverridePath.parse o.path with
  | error e => exact .inl ⟨e, e, rfl, rfl⟩
  | ok path =>
    cases hop : OverrideOp.ofDecl o with
    | error e => exact .inl ⟨e, e, rfl, rfl⟩
    | ok op =>
      have hspares := ho path hparse
      obtain ⟨part, rest, hsegments⟩ := path.segments_withinSpec
      show SpelledAlike keep older moved (path.withinSpec.apply op o.value (.map spec))
        (path.withinSpec.apply op o.value (.map spec'))
      rcases List.eq_nil_or_concat rest with rfl | ⟨below, last, rfl⟩
      · have hpart : part ∉ ["context", "queries"] := fun hpart => (hspares part hpart).1 hsegments
        refine .inr ⟨_, _, OverridePath.apply_part hsegments op o.value spec,
          OverridePath.apply_part hsegments op o.value spec', ?_⟩
        rw [h.others part hpart]
        exact h.assign hpart _
      rw [List.concat_eq_append] at hsegments
      rw [OverridePath.apply_below hsegments, OverridePath.apply_below hsegments]
      by_cases hpart : part ∈ ["context", "queries"]
      · obtain ⟨first, beyond, hfirst⟩ := List.exists_cons_of_ne_nil
          (List.append_ne_nil_of_right_ne_nil below (List.cons_ne_nil last []))
        cases first with
        | key k =>
          have hk : keep k = true := (hspares part hpart).2 k beyond (hfirst ▸ hsegments)
          obtain ⟨change, hchange⟩ := path.withinSpec.changeBelow_key part hfirst op o.value
          obtain ⟨entries, entries', hspec, hspec', hsame, hmade⟩ := h.change hpart hk
          rw [hspec, hspec', hchange, hchange, hsame]
          cases change (entries'.valueAt? k) with
          | error e => exact .inl ⟨e, e, rfl, rfl⟩
          | ok made => exact .inr ⟨_, _, rfl, rfl, hmade made⟩
        | index n =>
          obtain ⟨entries, entries', hspec, hspec'⟩ := h.maps hpart
          rw [hspec, hspec']
          obtain ⟨e, he⟩ := path.withinSpec.changeBelow_index part hfirst op o.value entries
          obtain ⟨e', he'⟩ := path.withinSpec.changeBelow_index part hfirst op o.value entries'
          rw [he, he']
          exact .inl ⟨e, e', rfl, rfl⟩
      · rw [h.others part hpart]
        cases path.withinSpec.changeBelow op o.value part below last (spec'.valueAt? part) with
        | error e => exact .inl ⟨e, e, rfl, rfl⟩
        | ok made => exact .inr ⟨_, _, rfl, rfl, h.assign hpart made⟩

theorem applyAll_spelled {overrides : List OverrideDecl} (hspares : ∀ o ∈ overrides, o.Spares keep)
    (h : Spellings keep older moved spec spec') :
    SpelledAlike keep older moved (applyAll overrides (.map spec)) (applyAll overrides (.map spec')) := by
  induction overrides generalizing spec spec' with
  | nil => exact .inr ⟨spec, spec', rfl, rfl, h⟩
  | cons o rest ih =>
    obtain ⟨hfirst, hrest⟩ := List.forall_mem_cons.mp hspares
    have hstep : ∀ s : Table Tree, applyAll (o :: rest) (.map s) = o.apply (.map s) >>= applyAll rest := fun _ => rfl
    rw [hstep, hstep]
    rcases apply_spelled hfirst h with ⟨e, e', he, he'⟩ | ⟨made, made', hmade, hmade', hspelled⟩
    · rw [he, he']
      exact .inl ⟨e, e', rfl, rfl⟩
    · rw [hmade, hmade']
      exact ih hrest hspelled

end OverrideDecl

/-! ### Trees -/

theorem Legacy.moved_distinct (context queries : Table Tree) : (moved context queries).Distinct := by
  unfold Table.Distinct Table.keyList moved
  rw [List.map_filterMap]
  refine List.Nodup.filterMap (fun k k' name hk hk' => ?_) (by decide)
  obtain ⟨e, he, rfl⟩ := Option.map_eq_some_iff.mp hk
  obtain ⟨e', he', hname⟩ := Option.map_eq_some_iff.mp hk'
  rw [← (exists_of_movedAt he).1, ← (exists_of_movedAt he').1, hname]

namespace PresetDecl

/-- A preset with its older queries among its queries. -/
def respelled (e : PresetDecl) : PresetDecl :=
  { e with
    context := (Legacy.respell e.context e.queries).context
    queries := (Legacy.respell e.context e.queries).queries }

/-- No older query is moved from under a name. -/
def stays (e : PresetDecl) : String → Bool := Legacy.stays e.context e.queries

/-- Nothing else has to do with the older queries that are moved: no query that they are laid over, no override and no
entry of the compose map. -/
structure Apart (b : Bit) (e : PresetDecl) : Prop where
  queries : ∀ base, e.laidOver .queries b.defaults.queries e.queries = .ok base →
    (∀ key ∈ base.keyList, e.stays key = true) ∧ (e.overrides = [] ∨ base ≠ [])
  overrides : ∀ o ∈ e.overrides, o.Spares e.stays
  compose : ∀ tree specs, e.tree b = .ok tree →
    ComposeSpec.readTable (((tree.valueAt? "compose").bind Tree.table?).getD []) = .ok specs → Compose.Spares e.stays specs

instance (b : Bit) (e : PresetDecl) : Decidable (e.Apart b) :=
  have : Decidable (e.overrides = []) := decidable_of_iff _ List.isEmpty_iff
  have : DecidablePred fun base : Table Tree => base ≠ [] := fun base => decidable_of_iff (¬ base.isEmpty = true)
    (not_congr List.isEmpty_iff)
  decidable_of_iff ((∀ base, e.laidOver .queries b.defaults.queries e.queries = .ok base →
      (∀ key ∈ base.keyList, e.stays key = true) ∧ (e.overrides = [] ∨ base ≠ [])) ∧
    (∀ o ∈ e.overrides, o.Spares e.stays) ∧ ∀ tree, e.tree b = .ok tree → ∀ specs,
      ComposeSpec.readTable (((tree.valueAt? "compose").bind Tree.table?).getD []) = .ok specs → Compose.Spares e.stays specs)
    ⟨fun h => ⟨h.1, h.2.1, fun tree specs htree => h.2.2 tree htree specs⟩,
      fun h => ⟨h.queries, h.overrides, fun tree htree specs => h.compose tree specs htree⟩⟩

variable {b : Bit} {e : PresetDecl}

theorem stays_eq_false {key : String} : e.stays key = false ↔ key ∈ (Legacy.moved e.context e.queries).keyList := by
  rw [stays, Legacy.stays, Bool.not_eq_false', Table.hasKey_eq_true]

/-- The queries that are moved come behind all others. -/
theorem laidOver_respelled {base queries : Table Tree} (h : e.laidOver .queries base e.queries = .ok queries)
    (hapart : ∀ key ∈ queries.keyList, e.stays key = true) :
    e.respelled.laidOver .queries base e.respelled.queries = .ok (queries ++ Legacy.moved e.context e.queries) := by
  obtain ⟨policy, hpolicy, h⟩ := bind_eq_ok.mp h
  refine bind_eq_ok.mpr ⟨policy, hpolicy, ?_⟩
  cases policy with
  | replace =>
    cases h
    rfl
  | merge =>
    cases h
    have hdisjoint : ∀ key ∈ (Legacy.moved e.context e.queries).keyList, key ∉ (Table.merge .replace base e.queries).keyList :=
      fun key hkey hmem => by cases (stays_eq_false.mpr hkey).symm.trans (hapart key hmem)
    refine congrArg Except.ok ?_
    show Tree.mergeEntries .replace base (e.queries ++ Legacy.moved e.context e.queries) = _
    unfold Table.merge at hdisjoint ⊢
    rw [Tree.mergeEntries_eq] at hdisjoint ⊢
    rw [Tree.mergeEntries_eq, ← Table.mergeWith_of_disjoint (Legacy.moved_distinct _ _) hdisjoint]
    exact List.foldl_append

theorem append_moved {queries : Table Tree} (h : ∀ key ∈ queries.keyList, e.stays key = true) :
    (queries ++ Legacy.moved e.context e.queries).kept e.stays = queries ∧
      (queries ++ Legacy.moved e.context e.queries).dropped e.stays = Legacy.moved e.context e.queries := by
  have hqueries : ∀ x ∈ queries, e.stays x.1 = true := fun x hx => h _ (List.mem_map_of_mem hx)
  have hmoved : ∀ x ∈ Legacy.moved e.context e.queries, e.stays x.1 = false := fun x hx =>
    stays_eq_false.mpr (List.mem_map_of_mem hx)
  unfold Table.kept Table.dropped
  rw [List.filter_append, List.filter_append]
  refine ⟨?_, ?_⟩
  · rw [List.filter_eq_self.mpr hqueries, List.filter_eq_nil_iff.mpr fun x hx => by rw [hmoved x hx]; decide,
      List.append_nil]
  · rw [List.filter_eq_nil_iff.mpr fun x hx => by rw [hqueries x hx]; decide,
      List.filter_eq_self.mpr fun x hx => by rw [hmoved x hx]; rfl, List.nil_append]

/-- Laying a part over another one fails because of the policy only. -/
theorem laidOver_error {part : Part} {base own : Table Tree} {error : Error} (h : e.laidOver part base own = .error error)
    (base' own' : Table Tree) : e.laidOver part base' own' = .error error := by
  unfold laidOver at h ⊢
  cases hpolicy : e.merge.policy part with
  | error _ =>
    rw [hpolicy] at h
    exact h
  | ok policy =>
    rw [hpolicy] at h
    cases policy <;> cases h

theorem tree_eq {queries compose : Table Tree} (hqueries : e.laidOver .queries b.defaults.queries e.queries = .ok queries)
    (hcompose : e.laidOver .compose b.defaults.compose e.compose = .ok compose) (h : e.overrides = [] ∨ queries ≠ []) :
    e.tree b = OverrideDecl.applyAll e.overrides
      (.map [("context", .map e.context), ("queries", .map queries), ("compose", .map compose)]) := by
  have hguard : ((!e.overrides.isEmpty) && queries.isEmpty) = false := by
    rcases h with h | h
    · rw [h]
      rfl
    · rw [List.isEmpty_eq_false_iff.mpr h, Bool.and_false]
  unfold tree
  rw [hqueries, hcompose]
  simp only [bind, Except.bind, hguard]
  rfl

theorem tree_respelled (hcontext : e.context.Distinct) (h : e.Apart b) :
    SpelledAlike e.stays (e.context.dropped e.stays) (Legacy.moved e.context e.queries) (e.tree b) (e.respelled.tree b) := by
  cases hqueries : e.laidOver .queries b.defaults.queries e.queries with
  | error err =>
    have hqueries' : e.respelled.laidOver .queries b.defaults.queries e.respelled.queries = .error err :=
      laidOver_error hqueries _ _
    refine .inl ⟨err, err, ?_, ?_⟩
    · rw [tree, hqueries]
      rfl
    · rw [tree, hqueries']
      rfl
  | ok queries =>
    obtain ⟨hstay, hguard⟩ := h.queries queries hqueries
    have hqueries' := laidOver_respelled hqueries hstay
    cases hcompose : e.laidOver .compose b.defaults.compose e.compose with
    | error err =>
      have hcompose' : e.respelled.laidOver .compose b.defaults.compose e.respelled.compose = .error err := hcompose
      refine .inl ⟨err, err, ?_, ?_⟩
      · rw [tree, hqueries, hcompose]
        rfl
      · rw [tree, hqueries', hcompose']
        rfl
    | ok compose =>
      have hguard' : e.respelled.overrides = [] ∨ queries ++ Legacy.moved e.context e.queries ≠ [] :=
        hguard.imp_right fun hne => List.append_ne_nil_of_left_ne_nil hne _
      rw [tree_eq hqueries hcompose hguard, tree_eq hqueries' hcompose hguard']
      have hparts : ["context", "queries", "compose"].Nodup := by decide
      obtain ⟨hkept, hdropped⟩ := append_moved hstay
      refine OverrideDecl.applyAll_spelled h.overrides ⟨hparts, hparts, fun part hpart => ?_,
        ⟨e.context, hcontext, rfl, rfl, rfl⟩, queries ++ Legacy.moved e.context e.queries, hdropped, ?_, rfl⟩
      · simp only [List.mem_cons, List.not_mem_nil, or_false, not_or] at hpart
        simp only [Table.valueAt?_cons, if_neg (Ne.symm hpart.1), if_neg (Ne.symm hpart.2)]
      · rw [hkept]
        rfl

end PresetDecl

end Bitpress
