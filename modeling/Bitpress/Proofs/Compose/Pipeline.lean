import Bitpress.Compose
import Bitpress.Proofs.Selection
import Mathlib.Data.List.Flatten
import Mathlib.Data.List.Perm.Subperm

/-!
What one entry makes of its groups.

The groups are joined, or stay as they are; of the items with one key the first
is kept (`firsts`), and what is left is shuffled and cut to length (`Arranged`).
Nothing is made twice on the way (`one_shapes`).
-/

namespace Bitpress

namespace Compose

variable {α : Type} {key? : α → Option String} {before items : List α} {groups : List (List α)} {seen : List String}

/-! ### Joining -/

theorem column_cons (group : List α) (rest : List (List α)) (i : Nat) :
    column (group :: rest) i = group[i]?.toList ++ column rest i := by
  unfold column
  rw [List.filterMap_cons]
  cases group[i]? <;> rfl

theorem flatMap_getElem?_range {n : Nat} {group : List α} (h : group.length ≤ n) :
    ((List.range n).flatMap fun i => group[i]?.toList) = group := by
  induction group generalizing n with
  | nil => exact List.flatMap_eq_nil_iff.mpr fun i _ => by rw [List.getElem?_nil]; rfl
  | cons a rest ih =>
    cases n with
    | zero => cases h
    | succ n =>
      rw [List.range_succ_eq_map, List.flatMap_cons, List.flatMap_map]
      exact congrArg (a :: ·) (ih (Nat.le_of_succ_le_succ h))

theorem le_foldl_max (lengths : List Nat) (start : Nat) :
    start ≤ lengths.foldl Nat.max start ∧ ∀ n ∈ lengths, n ≤ lengths.foldl Nat.max start := by
  induction lengths generalizing start with
  | nil => exact ⟨Nat.le_refl start, fun _ h => by cases h⟩
  | cons first rest ih =>
    obtain ⟨hstart, hrest⟩ := ih (Nat.max start first)
    exact ⟨Nat.le_trans (Nat.le_max_left start first) hstart,
      List.forall_mem_cons.mpr ⟨Nat.le_trans (Nat.le_max_right start first) hstart, hrest⟩⟩

theorem length_le_longest {group : List α} (h : group ∈ groups) : group.length ≤ longest groups :=
  (le_foldl_max _ 0).2 _ (List.mem_map_of_mem h)

/-- As many columns as the longest group has items hold all items. -/
theorem columns_perm {n : Nat} (h : ∀ group ∈ groups, group.length ≤ n) :
    ((List.range n).flatMap (column groups)).Perm groups.flatten := by
  induction groups with
  | nil => exact .of_eq (List.flatMap_eq_nil_iff.mpr fun i _ => rfl)
  | cons group rest ih =>
    obtain ⟨hgroup, hrest⟩ := List.forall_mem_cons.mp h
    have hcolumns : column (group :: rest) = fun i => group[i]?.toList ++ column rest i := funext (column_cons group rest)
    rw [hcolumns, List.flatten_cons]
    refine (List.flatMap_append_perm (List.range n) (fun i => group[i]?.toList) (column rest)).symm.trans ?_
    rw [flatMap_getElem?_range hgroup]
    exact (ih hrest).append_left group

/-- Joining loses nothing and repeats nothing. -/
theorem mergeGroups_perm (mode : MergeMode) (groups : List (List α)) : (mergeGroups mode groups).Perm groups.flatten := by
  cases mode with
  | concat => exact .rfl
  | interleave => exact columns_perm fun _ h => length_le_longest h

/-! ### The first of each key -/

/-- An item repeats nothing if it has no key, or nothing before it has that key. -/
def New (key? : α → Option String) (before : List α) (a : α) : Prop := key? a = none ∨ key? a ∉ before.map key?

instance (a : α) : Decidable (New key? before a) := inferInstanceAs (Decidable (_ ∨ _))

/-- The items that repeat nothing, each with regard to all that stand before it, dropped ones too. -/
def firsts (key? : α → Option String) (before items : List α) : List α :=
  (items.zipIdx.filter fun e => New key? (before ++ items.take e.2) e.1).map Prod.fst

theorem firsts_nil : firsts key? before [] = [] := rfl

theorem firsts_cons (a : α) (rest : List α) : firsts key? before (a :: rest) =
    if New key? before a then a :: firsts key? (before ++ [a]) rest else firsts key? (before ++ [a]) rest := by
  have hrest : ((rest.zipIdx 1).filter fun e => New key? (before ++ (a :: rest).take e.2) e.1).map Prod.fst =
      firsts key? (before ++ [a]) rest := by
    unfold firsts
    rw [List.zipIdx_succ, List.filter_map, List.map_map]
    refine congrArg _ (List.filter_congr fun e _ => ?_)
    have hbefore : before ++ (a :: rest).take (e.2 + 1) = before ++ [a] ++ rest.take e.2 := by simp
    exact congrArg (fun before => decide (New key? before e.1)) hbefore
  unfold firsts at *
  rw [List.zipIdx_cons, List.filter_cons]
  by_cases hnew : New key? before a <;> simp [hnew, hrest]

theorem firsts_append (before xs ys : List α) :
    firsts key? before (xs ++ ys) = firsts key? before xs ++ firsts key? (before ++ xs) ys := by
  induction xs generalizing before with
  | nil => rw [firsts_nil, List.append_nil]; rfl
  | cons a rest ih =>
    rw [List.cons_append, firsts_cons, firsts_cons, ih, List.append_assoc]
    split <;> rfl

theorem firsts_sublist (before items : List α) : (firsts key? before items).Sublist items := by
  have hkept : (items.zipIdx.filter fun e => New key? (before ++ items.take e.2) e.1).Sublist items.zipIdx :=
    List.filter_sublist
  have h := hkept.map Prod.fst
  rwa [List.zipIdx_map_fst] at h

/-- Among the items that are kept, no key occurs twice, and none that occurs before them. -/
theorem firsts_keys (before items : List α) : ((firsts key? before items).filterMap key?).Nodup ∧
    ∀ k ∈ (firsts key? before items).filterMap key?, some k ∉ before.map key? := by
  induction items generalizing before with
  | nil => exact ⟨List.nodup_nil, fun _ h => by cases h⟩
  | cons a rest ih =>
    obtain ⟨hnodup, hbefore⟩ := ih (before ++ [a])
    have hlater : ∀ k ∈ (firsts key? (before ++ [a]) rest).filterMap key?, some k ∉ before.map key? ∧ some k ≠ key? a := by
      intro k hk
      have h := hbefore k hk
      rw [List.map_append, List.mem_append, not_or, List.map_singleton, List.mem_singleton] at h
      exact h
    rw [firsts_cons]
    split
    · rename_i hnew
      rw [List.filterMap_cons]
      cases hkey : key? a with
      | none => exact ⟨hnodup, fun k hk => (hlater k hk).1⟩
      | some k =>
        have hfirst : some k ∉ before.map key? := by
          have h := hnew.resolve_left (by rw [hkey]; exact Option.some_ne_none k)
          rwa [hkey] at h
        exact ⟨List.nodup_cons.mpr ⟨fun hk => (hlater k hk).2 hkey.symm, hnodup⟩,
          List.forall_mem_cons.mpr ⟨hfirst, fun j hj => (hlater j hj).1⟩⟩
    · exact ⟨hnodup, fun k hk => (hlater k hk).1⟩

/-! ### Dropping repeated items -/

/-- The keys that have been seen are those of some items. -/
def SeenIn (key? : α → Option String) (before : List α) (seen : List String) : Prop :=
  ∀ k, k ∈ seen ↔ some k ∈ before.map key?

theorem SeenIn.nil : SeenIn key? [] [] := fun _ => by simp

theorem SeenIn.new (h : SeenIn key? before seen) {a : α} {k : String} (hkey : key? a = some k) :
    New key? before a ↔ k ∉ seen := by
  unfold New
  rw [hkey, h k]
  simp

/-- An item whose key has been seen, or that has none, adds no key. -/
theorem SeenIn.skip (h : SeenIn key? before seen) {a : α} (ha : ∀ k, key? a = some k → k ∈ seen) :
    SeenIn key? (before ++ [a]) seen := by
  intro k
  rw [List.map_append, List.mem_append, ← h k, List.map_singleton, List.mem_singleton]
  exact ⟨.inl, fun hk => hk.elim id fun hk => ha k hk.symm⟩

theorem SeenIn.add (h : SeenIn key? before seen) {a : α} {k : String} (hkey : key? a = some k) :
    SeenIn key? (before ++ [a]) (k :: seen) := by
  intro j
  rw [List.map_append, List.mem_append, ← h j, List.map_singleton, List.mem_singleton, hkey, Option.some_inj,
    List.mem_cons, or_comm]

/-- Dropping by the keys that have been seen keeps the first item of each key. An item that is dropped has been
seen, so it does not matter whether those before it were kept. -/
theorem dedupe_eq (h : SeenIn key? before seen) (items : List α) :
    (dedupe key? seen items).1 = firsts key? before items ∧
      SeenIn key? (before ++ items) (dedupe key? seen items).2 := by
  induction items generalizing before seen with
  | nil => exact ⟨rfl, by rwa [List.append_nil]⟩
  | cons a rest ih =>
    have hrow : before ++ a :: rest = before ++ [a] ++ rest := List.append_cons ..
    rw [firsts_cons, hrow]
    unfold dedupe
    cases hkey : key? a with
    | none =>
      obtain ⟨hkept, hseen⟩ := ih (h.skip (a := a) fun k hk => by rw [hkey] at hk; cases hk)
      rw [if_pos (.inl hkey)]
      exact ⟨congrArg (a :: ·) hkept, hseen⟩
    | some k =>
      dsimp only
      by_cases hk : k ∈ seen
      · have hnew : ¬ New key? before a := fun hnew => (h.new hkey).mp hnew hk
        rw [if_pos (List.contains_iff_mem.mpr hk), if_neg hnew]
        exact ih (h.skip fun j hj => by rw [hkey] at hj; cases hj; exact hk)
      · obtain ⟨hkept, hseen⟩ := ih (h.add hkey)
        rw [if_neg (mt List.contains_iff_mem.mp hk), if_pos ((h.new hkey).mpr hk)]
        exact ⟨congrArg (a :: ·) hkept, hseen⟩

theorem dedupeGroups_eq (h : SeenIn key? before seen) (groups : List (List α)) :
    dedupeGroups key? seen groups = groups.mapIdx fun n group => firsts key? (before ++ (groups.take n).flatten) group := by
  induction groups generalizing before seen with
  | nil => rfl
  | cons group rest ih =>
    obtain ⟨hkept, hseen⟩ := dedupe_eq h group
    rw [dedupeGroups, List.mapIdx_cons]
    dsimp only
    rw [hkept, ih hseen]
    simp [List.append_assoc]

/-- What is kept of the groups, taken together, is what is kept of all items in a row. -/
theorem flatten_firsts (before : List α) (groups : List (List α)) :
    (groups.mapIdx fun n group => firsts key? (before ++ (groups.take n).flatten) group).flatten =
      firsts key? before groups.flatten := by
  induction groups generalizing before with
  | nil => rfl
  | cons group rest ih =>
    rw [List.mapIdx_cons, List.flatten_cons, List.flatten_cons, firsts_append, ← ih]
    simp [List.append_assoc]

/-! ### One entry -/

/-- A list in some order, cut to length; without shuffling it stays in order. -/
def Arranged (spec : ComposeSpec) (xs ys : List α) : Prop :=
  ∃ order : List α, order.Perm xs ∧ (spec.shuffle = false → order = xs) ∧ ys = spec.limit.elim order order.take

theorem arranged (source : RandomSource) (spec : ComposeSpec) (xs : List α) :
    Arranged spec xs (limited spec.limit (shuffled source spec.shuffle xs)) := by
  refine ⟨shuffled source spec.shuffle xs, ?_, fun h => by rw [h]; rfl, ?_⟩
  · unfold shuffled
    split
    · exact Draw.shuffle_perm xs _
    · exact .rfl
  · cases spec.limit <;> rfl

theorem Arranged.subperm {spec : ComposeSpec} {xs ys : List α} (h : Arranged spec xs ys) : ys.Subperm xs := by
  obtain ⟨order, hperm, -, rfl⟩ := h
  refine .trans ?_ hperm.subperm
  cases spec.limit with
  | none => exact .refl _
  | some n => exact (List.take_sublist n order).subperm

theorem Arranged.subperm_flatten {spec : ComposeSpec} {xs ys : List (List α)} (h : Arranged spec xs ys) :
    ys.flatten.Subperm xs.flatten := by
  obtain ⟨order, hperm, -, rfl⟩ := h
  refine .trans ?_ hperm.flatten.subperm
  cases spec.limit with
  | none => exact .refl _
  | some n => exact (List.take_sublist n order).flatten.subperm

/-- What an entry keeps of some items that come after others. -/
def kept (dedupeBy : Option Dedupe) (before items : List ContextValue) : List ContextValue :=
  match dedupeBy with
  | some d => firsts d.key? before items
  | none => items

variable {spec : ComposeSpec} {mode : Option MergeMode} {dedupeBy : Option Dedupe}

theorem kept_sublist (dedupeBy : Option Dedupe) (before items : List ContextValue) :
    (kept dedupeBy before items).Sublist items := by
  cases dedupeBy with
  | none => exact .refl items
  | some d => exact firsts_sublist before items

/-- What an entry keeps of each group, the items of the groups before it coming first. -/
def keptGroups (dedupeBy : Option Dedupe) (groups : List (List ContextValue)) : List (List ContextValue) :=
  groups.mapIdx fun n group => kept dedupeBy (groups.take n).flatten group

theorem keptGroups_none (groups : List (List ContextValue)) : keptGroups none groups = groups := by
  refine List.ext_getElem? fun i => ?_
  unfold keptGroups
  rw [List.getElem?_mapIdx]
  exact Option.map_id' ..

theorem flatten_keptGroups (dedupeBy : Option Dedupe) (groups : List (List ContextValue)) :
    (keptGroups dedupeBy groups).flatten = kept dedupeBy [] groups.flatten := by
  cases dedupeBy with
  | none => rw [keptGroups_none]; rfl
  | some d => exact flatten_firsts [] groups

/-- Whatever is left of what was kept, in whatever order, has no key twice. -/
theorem keys_of_subperm {d : Dedupe} {items made : List ContextValue} (h : made.Subperm (firsts d.key? [] items)) :
    (made.filterMap d.key?).Nodup := by
  obtain ⟨order, hperm, hsublist⟩ := h
  exact (hperm.filterMap d.key?).nodup_iff.mp (((firsts_keys [] items).1).sublist (hsublist.filterMap d.key?))

theorem dedupe_kept (dedupeBy : Option Dedupe) (items : List ContextValue) : (match dedupeBy with
    | some d => (dedupe d.key? [] items).1
    | none => items) = kept dedupeBy [] items := by
  cases dedupeBy with
  | none => rfl
  | some d => exact (dedupe_eq .nil items).1

theorem dedupeGroups_kept (dedupeBy : Option Dedupe) (groups : List (List ContextValue)) : (match dedupeBy with
    | some d => dedupeGroups d.key? [] groups
    | none => groups) = keptGroups dedupeBy groups := by
  cases dedupeBy with
  | none => exact (keptGroups_none groups).symm
  | some d => exact dedupeGroups_eq .nil groups

theorem one_eq (hmode : spec.merge.mapM MergeMode.read = .ok mode) (hdedupe : spec.dedupe.mapM Dedupe.read = .ok dedupeBy)
    (source : RandomSource) (groups : List (List ContextValue)) (grouped : Bool) :
    one source groups grouped spec = .ok (if !grouped || spec.flatten.getD true
      then .flat (limited spec.limit (shuffled source spec.shuffle (kept dedupeBy [] (mergeGroups (mode.getD .concat) groups))))
      else .grouped (limited spec.limit (shuffled source spec.shuffle (keptGroups dedupeBy groups)))) := by
  unfold one
  rw [hmode, hdedupe, ← dedupe_kept, ← dedupeGroups_kept]
  show (if (!grouped || spec.flatten.getD true) = true then _ else _) = _
  split <;> rfl

theorem flattens_iff {grouped : Bool} {flatten : Option Bool} :
    (!grouped || flatten.getD true) = true ↔ ¬ (grouped = true ∧ flatten = some false) := by
  rcases flatten with - | - | - <;> cases grouped <;> simp

/-- An entry whose words are known joins its groups, keeps the first item of each key, and cuts what is left to
length, in order unless it shuffles. With `flatten` off, groups stay groups: each keeps what repeats nothing in it
or in a group before it, and as many groups are left as the length says. No item occurs more often than before,
and no key twice. -/
theorem one_shapes (hmode : spec.merge.mapM MergeMode.read = .ok mode)
    (hdedupe : spec.dedupe.mapM Dedupe.read = .ok dedupeBy) (source : RandomSource) (groups : List (List ContextValue))
    (grouped : Bool) :
    ∃ made, one source groups grouped spec = .ok made ∧
      (¬ (grouped = true ∧ spec.flatten = some false) → ∃ items, made = .flat items ∧
        Arranged spec (kept dedupeBy [] (mergeGroups (mode.getD .concat) groups)) items) ∧
      (grouped = true ∧ spec.flatten = some false → ∃ left, made = .grouped left ∧
        Arranged spec (keptGroups dedupeBy groups) left) ∧
      made.groups.flatten.Subperm groups.flatten ∧
      ∀ d, dedupeBy = some d → (made.groups.flatten.filterMap d.key?).Nodup := by
  refine ⟨_, one_eq hmode hdedupe source groups grouped, ?_⟩
  by_cases hgroups : grouped = true ∧ spec.flatten = some false
  · have harranged := arranged source spec (keptGroups dedupeBy groups)
    have hleft := harranged.subperm_flatten
    rw [flatten_keptGroups] at hleft
    rw [if_neg (mt flattens_iff.mp (not_not_intro hgroups))]
    refine ⟨absurd hgroups, fun _ => ⟨_, rfl, harranged⟩, ?_, ?_⟩
    · exact hleft.trans (kept_sublist dedupeBy [] groups.flatten).subperm
    · rintro d rfl
      exact keys_of_subperm hleft
  · have harranged := arranged source spec (kept dedupeBy [] (mergeGroups (mode.getD .concat) groups))
    have hitems := harranged.subperm
    rw [if_pos (flattens_iff.mpr hgroups)]
    refine ⟨fun _ => ⟨_, rfl, harranged⟩, fun h => absurd h hgroups, ?_, ?_⟩
    · rw [Composed.groups, List.flatten_singleton]
      exact (hitems.trans (kept_sublist ..).subperm).trans (mergeGroups_perm ..).subperm
    · rintro d rfl
      rw [Composed.groups, List.flatten_singleton]
      exact keys_of_subperm hitems

/-- Two groups with an item in common. -/
def overlapping : List (List ContextValue) := [[.str "a", .str "b"], [.str "a", .str "c"]]

/-- Takes the groups in turns. -/
def inTurns : ComposeSpec := { merge := some "interleave", dedupe := some " id ", limit := some 2 }

theorem one_shapes_in_turns : inTurns.merge.mapM MergeMode.read = .ok (some .interleave) ∧
    inTurns.dedupe.mapM Dedupe.read = .ok (some .byId) ∧
    one (ChaCha.seeded 0) overlapping true inTurns = .ok (.flat [.str "a", .str "b"]) := by
  have hmode : inTurns.merge.mapM MergeMode.read = .ok (some .interleave) := by rfl
  have hdedupe : inTurns.dedupe.mapM Dedupe.read = .ok (some .byId) := by rfl
  obtain ⟨_, hmade, hflat, -⟩ := one_shapes hmode hdedupe (ChaCha.seeded 0) overlapping true
  obtain ⟨_, rfl, order, -, horder, rfl⟩ := hflat (by decide)
  refine ⟨hmode, hdedupe, hmade.trans ?_⟩
  rw [horder rfl]
  rfl

end Compose

end Bitpress
