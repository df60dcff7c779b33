import Bitpress.Compose
import Bitpress.Proofs.Identity
import Bitpress.Proofs.Outcome
import Bitpress.Proofs.Rename
import Bitpress.Proofs.Selection

/-!
Composing when identities are renamed. What is composed from renamed results is
what is composed from the results, renamed: items are told apart by identities,
names and fingerprints, and distinct identities stay distinct.
-/

namespace Bitpress

variable {α β : Type}

def QueryResult.rename (f : ElementId → ElementId) : QueryResult → QueryResult
  | .single items => .single (items.map (.rename f))
  | .multi groups => .multi (groups.map (List.map (.rename f)))

theorem QueryResult.groups_rename (f : ElementId → ElementId) (r : QueryResult) :
    (r.rename f).groups = r.groups.map (List.map (.rename f)) := by
  cases r <;> rfl

theorem QueryResult.isMulti_rename (f : ElementId → ElementId) (r : QueryResult) :
    (r.rename f).isMulti = r.isMulti := by
  cases r <;> rfl

namespace Compose

/-! ### Joining, shuffling and cutting -/

section Lists
variable (g : α → β)

theorem column_map (groups : List (List α)) (i : Nat) :
    column (groups.map (List.map g)) i = (column groups i).map g := by
  unfold column
  rw [List.filterMap_map, List.map_filterMap]
  exact congrArg (List.filterMap · groups) (funext fun group => List.getElem?_map ..)

theorem longest_map (groups : List (List α)) : longest (groups.map (List.map g)) = longest groups := by
  unfold longest
  rw [List.map_map]
  exact congrArg (fun h => (groups.map h).foldl Nat.max 0) (funext fun group => List.length_map g)

theorem mergeGroups_map (mode : MergeMode) (groups : List (List α)) :
    mergeGroups mode (groups.map (List.map g)) = (mergeGroups mode groups).map g := by
  cases mode with
  | concat => exact List.map_flatten.symm
  | interleave =>
    unfold mergeGroups
    dsimp only
    rw [longest_map, List.map_flatMap]
    exact congrArg (List.flatMap · _) (funext fun i => column_map g groups i)

theorem shuffled_map (source : RandomSource) (shuffle : Bool) (xs : List α) :
    shuffled source shuffle (xs.map g) = (shuffled source shuffle xs).map g := by
  unfold shuffled
  split
  · rw [Draw.shuffle_map]
    rfl
  · rfl

theorem limited_map (limit : Option Nat) (xs : List α) : limited limit (xs.map g) = (limited limit xs).map g := by
  cases limit with
  | none => rfl
  | some n => exact List.map_take.symm

end Lists

/-! ### Dropping repeated items -/

/-- Items have the same key exactly when what they are changed into has. -/
structure SameKeys (g : α → β) (key? : α → Option String) (key?' : β → Option String) : Prop where
  none : ∀ a, key? a = .none ↔ key?' (g a) = .none
  eq : ∀ a b, key? a = key? b ↔ key?' (g a) = key?' (g b)

/-- The keys of two kinds that have been seen are those of the same items. -/
def SeenAlike (g : α → β) (key? : α → Option String) (key?' : β → Option String) (seen seen' : List String) :
    Prop :=
  ∀ a k k', key? a = some k → key?' (g a) = some k' → (k ∈ seen ↔ k' ∈ seen')

section Dedupe
variable {g : α → β} {key? : α → Option String} {key?' : β → Option String} {seen seen' : List String}

theorem SeenAlike.nil : SeenAlike g key? key?' [] [] := fun _ _ _ _ _ => by simp

theorem SeenAlike.cons (hkeys : SameKeys g key? key?') (h : SeenAlike g key? key?' seen seen') {a : α}
    {k k' : String} (hk : key? a = some k) (hk' : key?' (g a) = some k') :
    SeenAlike g key? key?' (k :: seen) (k' :: seen') := by
  intro b j j' hj hj'
  have hsame := hkeys.eq b a
  rw [hj, hk, hj', hk', Option.some_inj, Option.some_inj] at hsame
  rw [List.mem_cons, List.mem_cons, hsame, h b j j' hj hj']

theorem dedupe_map (hkeys : SameKeys g key? key?') (xs : List α) (h : SeenAlike g key? key?' seen seen') :
    (dedupe key?' seen' (xs.map g)).1 = (dedupe key? seen xs).1.map g ∧
      SeenAlike g key? key?' (dedupe key? seen xs).2 (dedupe key?' seen' (xs.map g)).2 := by
  induction xs generalizing seen seen' with
  | nil => exact ⟨rfl, h⟩
  | cons a rest ih =>
    rw [List.map_cons]
    unfold dedupe
    cases hk : key? a with
    | none =>
      rw [(hkeys.none a).mp hk]
      obtain ⟨hkept, hseen⟩ := ih h
      exact ⟨congrArg (g a :: ·) hkept, hseen⟩
    | some k =>
      cases hk' : key?' (g a) with
      | none =>
        rw [(hkeys.none a).mpr hk'] at hk
        cases hk
      | some k' =>
        have hmem : seen'.contains k' = seen.contains k := by
          rw [Bool.eq_iff_iff, List.contains_iff_mem, List.contains_iff_mem]
          exact (h a k k' hk hk').symm
        dsimp only
        rw [hmem]
        split
        · exact ih h
        · obtain ⟨hkept, hseen⟩ := ih (h.cons hkeys hk hk')
          exact ⟨congrArg (g a :: ·) hkept, hseen⟩

theorem dedupeGroups_map (hkeys : SameKeys g key? key?') (groups : List (List α))
    (h : SeenAlike g key? key?' seen seen') :
    dedupeGroups key?' seen' (groups.map (List.map g)) = (dedupeGroups key? seen groups).map (List.map g) := by
  induction groups generalizing seen seen' with
  | nil => rfl
  | cons group rest ih =>
    obtain ⟨hkept, hseen⟩ := dedupe_map hkeys group h
    rw [List.map_cons, dedupeGroups, dedupeGroups]
    dsimp only
    rw [hkept, ih hseen, List.map_cons]

end Dedupe

/-! ### Renaming -/

section Rename
variable {f : ElementId → ElementId}

theorem elementId?_rename (v : ContextValue) : (v.rename f).elementId? = v.elementId?.map f := by
  cases v <;> rfl

theorem elementName?_rename (v : ContextValue) : (v.rename f).elementName? = v.elementName? := by
  cases v <;> rfl

/-- An identity and a fingerprint that stands in for one are never the same key. -/
theorem sameKeys_byId (hf : Function.Injective f) :
    SameKeys (ContextValue.rename f) Dedupe.byId.key? Dedupe.byId.key? := by
  refine ⟨fun v => by simp [Dedupe.key?], fun v w => ?_⟩
  simp only [Dedupe.key?, elementId?_rename, ContextValue.fingerprint_rename, Option.some_inj]
  cases hv : v.elementId? with
  | none =>
    cases hw : w.elementId? with
    | none => rfl
    | some j =>
      have hne := ContextValue.fingerprint_ne_text hv
      simp [hne j, hne (f j)]
  | some i =>
    cases hw : w.elementId? with
    | none =>
      have hne := ContextValue.fingerprint_ne_text hw
      simp [(hne i).symm, (hne (f i)).symm]
    | some j =>
      simp only [Option.map_some, Option.getD_some]
      constructor
      · intro h
        rw [ElementId.text_injective h]
      · intro h
        rw [hf (ElementId.text_injective h)]

theorem sameKeys (hf : Function.Injective f) (d : Dedupe) : SameKeys (ContextValue.rename f) d.key? d.key? := by
  cases d with
  | byId => exact sameKeys_byId hf
  | byName => constructor <;> simp [Dedupe.key?, elementName?_rename]
  | byHash => constructor <;> simp [Dedupe.key?, ContextValue.fingerprint_rename]

def Composed.rename (f : ElementId → ElementId) : Composed → Composed
  | .flat items => .flat (items.map (.rename f))
  | .grouped groups => .grouped (groups.map (List.map (.rename f)))

theorem Composed.groups_rename (c : Composed) : (c.rename f).groups = c.groups.map (List.map (.rename f)) := by
  cases c <;> rfl

theorem Composed.toValue_rename (c : Composed) : (c.rename f).toValue = c.toValue.rename f := by
  cases c <;> simp [Composed.rename, toValue, ContextValue.rename]

theorem one_rename (hf : Function.Injective f) (source : RandomSource) (groups : List (List ContextValue))
    (grouped : Bool) (spec : ComposeSpec) :
    Outcome.Mirrors (Composed.rename f) (one source groups grouped spec)
      (one source (groups.map (List.map (.rename f))) grouped spec) := by
  refine (Outcome.Mirrors.same (spec.merge.mapM MergeMode.read)).bind fun mode _ => ?_
  refine (Outcome.Mirrors.same (spec.dedupe.mapM Dedupe.read)).bind fun dedupeBy _ => ?_
  dsimp only [id]
  split
  · rw [mergeGroups_map]
    cases dedupeBy with
    | none =>
      show some _ = some _
      rw [shuffled_map, limited_map]
      rfl
    | some d =>
      show some _ = some _
      dsimp only
      rw [(dedupe_map (sameKeys hf d) _ .nil).1, shuffled_map, limited_map]
      rfl
  · cases dedupeBy with
    | none =>
      show some _ = some _
      rw [shuffled_map, limited_map]
      rfl
    | some d =>
      show some _ = some _
      dsimp only
      rw [dedupeGroups_map (sameKeys hf d) groups .nil, shuffled_map, limited_map]
      rfl

def Progress.rename (f : ElementId → ElementId) (p : Progress) : Progress :=
  ⟨p.output.rename f, p.composed.mapValues (Composed.rename f)⟩

theorem Progress.add_rename (p : Progress) (name : String) (spec : ComposeSpec) (made : Composed) :
    (p.rename f).add name spec (made.rename f) = (p.add name spec made).rename f := by
  unfold add rename
  dsimp only
  rw [Composed.toValue_rename, Context.rename_put, Table.mapValues_put]
  split
  · rfl
  · rw [Table.mapValues_put]

theorem sourceGroups?_rename (p : Progress) (results : Table QueryResult) (source : String) :
    sourceGroups? (p.rename f) (results.mapValues (QueryResult.rename f)) source =
      (sourceGroups? p results source).map (List.map (List.map (.rename f))) := by
  unfold sourceGroups? Progress.rename
  dsimp only
  rw [Table.valueAt?_mapValues, Table.valueAt?_mapValues]
  cases p.composed.valueAt? source with
  | some made => exact congrArg some made.groups_rename
  | none =>
    cases results.valueAt? source with
    | none => rfl
    | some r => exact congrArg some (r.groups_rename f)

end Rename

end Compose

end Bitpress
