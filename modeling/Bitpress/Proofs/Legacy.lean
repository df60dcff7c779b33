import Bitpress.Bit
import Bitpress.Inheritance
import Bitpress.Proofs.Table

/-!
Older queries that are moved to where queries stand.

A declaration that keeps queries among its variables can be spelled anew, with
these queries behind its own ones (`Legacy.respell`). Lifting makes the same of
both spellings (`Legacy.lift_respell`). So a target has the same spec in either
one, whichever of its bases are spelled anew (`Inheritance.specOf_spells`), and a
bit is the same bit (`Bit.ofDecl_respelled`).
-/

namespace Bitpress

/-! ### Lifting -/

namespace Legacy

variable {context queries : Table Tree} {key : String}

/-- An older query that no declared one stands before. -/
def movedAt (context queries : Table Tree) (key : String) : Option (String × Tree) :=
  if queries.hasKey key then none else (context.valueAt? key).map fun t => (key, t)

/-- The older queries that no declared ones stand before. -/
def moved (context queries : Table Tree) : Table Tree := keys.filterMap (movedAt context queries)

/-- No older query is moved from under a key. -/
def stays (context queries : Table Tree) (key : String) : Bool := !(moved context queries).hasKey key

/-- Older queries are moved behind the declared ones. -/
def respell (context queries : Table Tree) : Lifted :=
  ⟨context.kept (stays context queries), queries ++ moved context queries⟩

theorem exists_of_movedAt {e : String × Tree} (h : movedAt context queries key = some e) :
    e.1 = key ∧ key ∉ queries.keyList ∧ context.valueAt? key = some e.2 := by
  unfold movedAt at h
  split at h
  · cases h
  · rename_i hkey
    obtain ⟨t, ht, rfl⟩ := Option.map_eq_some_iff.mp h
    exact ⟨rfl, Table.hasKey_eq_false.mp (Bool.not_eq_true _ ▸ hkey), ht⟩

theorem mem_moved {e : String × Tree} :
    e ∈ moved context queries ↔ e.1 ∈ keys ∧ e.1 ∉ queries.keyList ∧ context.valueAt? e.1 = some e.2 := by
  refine List.mem_filterMap.trans ⟨fun ⟨key, hkey, h⟩ => ?_, fun ⟨hkey, hqueries, hvalue⟩ => ⟨e.1, hkey, ?_⟩⟩
  · obtain ⟨rfl, h⟩ := exists_of_movedAt h
    exact ⟨hkey, h⟩
  · rw [movedAt, Table.hasKey_eq_false.mpr hqueries, hvalue]
    rfl

theorem mem_keyList_moved : key ∈ (moved context queries).keyList ↔
    key ∈ keys ∧ key ∉ queries.keyList ∧ key ∈ context.keyList := by
  constructor
  · intro h
    obtain ⟨e, he, rfl⟩ := List.mem_map.mp h
    obtain ⟨hkey, hqueries, hvalue⟩ := mem_moved.mp he
    exact ⟨hkey, hqueries, List.mem_map_of_mem (Table.mem_of_valueAt? hvalue)⟩
  · rintro ⟨hkey, hqueries, hcontext⟩
    obtain ⟨t, ht⟩ := Option.ne_none_iff_exists'.mp (mt Table.valueAt?_eq_none.mp (not_not.mpr hcontext))
    exact List.mem_map_of_mem (f := Prod.fst) (mem_moved (e := (key, t)).mpr ⟨hkey, hqueries, ht⟩)

theorem liftKey_eq (h : context.Distinct) (key : String) : liftKey ⟨context, queries⟩ key =
    ⟨context.filter fun e => e.1 != key, queries ++ (movedAt context queries key).toList⟩ := by
  unfold liftKey movedAt
  dsimp only
  cases hvalue : context.valueAt? key with
  | none =>
    have hall : ∀ e ∈ context, (e.1 != key) = true := fun e he =>
      bne_iff_ne.mpr fun hk => Table.valueAt?_eq_none.mp hvalue (hk ▸ List.mem_map_of_mem he)
    rw [List.filter_eq_self.mpr hall]
    cases queries.hasKey key <;> exact congrArg _ (List.append_nil queries).symm
  | some t =>
    rw [Table.without_eq_filter h]
    cases hkey : queries.hasKey key with
    | true => exact congrArg _ (List.append_nil queries).symm
    | false => exact congrArg _ (Table.put_of_not_mem (Table.hasKey_eq_false.mp hkey))

/-- Lifting leaves all other variables, and puts the older queries behind the declared ones. -/
theorem lift_eq (h : context.Distinct) (queries : Table Tree) : lift context queries =
    ⟨context.filter fun e => e.1 ∉ keys, queries ++ moved context queries⟩ := by
  have hfold : ∀ (ks : List String) (c q : Table Tree), ks.Nodup → c.Distinct → ks.foldl liftKey ⟨c, q⟩ =
      ⟨c.filter fun e => e.1 ∉ ks, q ++ ks.filterMap (movedAt c q)⟩ := by
    intro ks
    induction ks with
    | nil => intro c q _ _; simp
    | cons k rest ih =>
      intro c q hks hc
      obtain ⟨hk, hrest⟩ := List.nodup_cons.mp hks
      have hmoved : rest.filterMap (movedAt (c.filter fun e => e.1 != k) (q ++ (movedAt c q k).toList)) =
          rest.filterMap (movedAt c q) := by
        refine List.filterMap_congr fun j hj => ?_
        have hjk : j ≠ k := fun he => hk (he ▸ hj)
        have hvalue : (Table.valueAt? (c.filter fun e => e.1 != k) j) = c.valueAt? j := by
          rw [Table.valueAt?_filter c (· != k), if_pos (bne_iff_ne.mpr hjk)]
        have hqueries : Table.hasKey (q ++ (movedAt c q k).toList) j = q.hasKey j := by
          rw [Bool.eq_iff_iff, Table.hasKey_eq_true, Table.hasKey_eq_true]
          cases hm : movedAt c q k with
          | none => simp
          | some e =>
            obtain ⟨he, -⟩ := exists_of_movedAt hm
            simp [Table.keyList, he, hjk]
        rw [movedAt, hvalue, hqueries]
        rfl
      rw [List.foldl_cons, liftKey_eq hc, ih _ _ hrest (hc.filter _), hmoved, List.filter_filter, List.append_assoc]
      congr 1
      · refine List.filter_congr fun e _ => ?_
        rw [Bool.eq_iff_iff]
        simp [and_comm]
      · rw [List.filterMap_cons]
        cases movedAt c q k <;> rfl
  exact hfold keys context queries (by decide) h

/-- Nothing is left to move. -/
theorem moved_respell (context queries : Table Tree) :
    moved (respell context queries).context (respell context queries).queries = [] := by
  refine List.eq_nil_iff_forall_not_mem.mpr fun e he => ?_
  obtain ⟨hkey, hqueries, hvalue⟩ := mem_moved.mp he
  have hmem := List.mem_map_of_mem (f := Prod.fst) (Table.mem_of_valueAt? hvalue)
  unfold respell Table.kept at hqueries hmem
  simp only [Table.keyList, List.map_append, List.mem_append, not_or] at hqueries
  obtain ⟨e', he', heq⟩ := List.mem_map.mp hmem
  refine hqueries.2 (mem_keyList_moved.mpr ⟨hkey, hqueries.1, ?_⟩)
  rw [← heq]
  exact List.mem_map_of_mem (List.mem_filter.mp he').1

/-- What is older in neither spelling is the same in both. -/
theorem filter_respell (context queries : Table Tree) :
    (respell context queries).context.filter (fun e => e.1 ∉ keys) = context.filter fun e => e.1 ∉ keys := by
  unfold respell Table.kept stays
  rw [List.filter_filter]
  refine List.filter_congr fun e _ => ?_
  by_cases hkey : e.1 ∈ keys
  · simp [hkey]
  · have hmoved : (moved context queries).hasKey e.1 = false :=
      Table.hasKey_eq_false.mpr fun h => hkey (mem_keyList_moved.mp h).1
    simp [hkey, hmoved]

/-- Lifting makes the same of both spellings. -/
theorem lift_respell (h : context.Distinct) (queries : Table Tree) :
    lift (respell context queries).context (respell context queries).queries = lift context queries := by
  have hcontext : (respell context queries).context.Distinct := h.filter _
  rw [lift_eq hcontext, lift_eq h, moved_respell, filter_respell, List.append_nil]
  rfl

/-- No query is ignored in one spelling only. -/
theorem warnings_respell (context queries : Table Tree) :
    warnings (respell context queries).context (respell context queries).queries = warnings context queries := by
  unfold warnings
  refine congrArg _ (List.filter_congr fun k hk => ?_)
  rw [Bool.eq_iff_iff, Bool.and_eq_true, Bool.and_eq_true, Table.hasKey_eq_true, Table.hasKey_eq_true,
    Table.hasKey_eq_true, Table.hasKey_eq_true]
  have hkeys : k ∈ (respell context queries).context.keyList ↔
      k ∈ context.keyList ∧ k ∉ (moved context queries).keyList := by
    rw [← not_iff_not, ← Table.valueAt?_eq_none]
    unfold respell Table.kept
    rw [Table.valueAt?_filter, stays]
    by_cases hmoved : k ∈ (moved context queries).keyList
    · simp [Table.hasKey_eq_true.mpr hmoved, hmoved]
    · simp [Table.hasKey_eq_false.mpr hmoved, hmoved, Table.valueAt?_eq_none]
  have hqueries : k ∈ (respell context queries).queries.keyList ↔
      k ∈ queries.keyList ∨ k ∈ (moved context queries).keyList := by
    unfold respell Table.keyList
    rw [List.map_append, List.mem_append]
  rw [hkeys, hqueries, mem_keyList_moved]
  tauto

end Legacy

/-! ### Targets -/

/-- A target with its older queries among its queries. -/
def TargetDecl.respelled (d : TargetDecl) : TargetDecl :=
  { d with
    context := (Legacy.respell d.context d.queries).context
    queries := (Legacy.respell d.context d.queries).queries }

namespace TargetDecl

variable {d : TargetDecl}

theorem ofDecl_respelled (h : d.context.Distinct) : TargetSpec.ofDecl d.respelled = .ofDecl d := by
  unfold TargetSpec.ofDecl respelled
  dsimp only
  rw [Legacy.lift_respell h]

theorem legacyWarnings_respelled (d : TargetDecl) :
    Inheritance.legacyWarnings d.respelled = Inheritance.legacyWarnings d :=
  Legacy.warnings_respell d.context d.queries

/-- Two spellings of a declaration. -/
def Spells (d d' : TargetDecl) : Prop := d' = d ∨ d.context.Distinct ∧ d' = d.respelled

end TargetDecl

namespace Inheritance

variable {m : Type → Type} [Monad m] {source : TargetSource m} {d d' : TargetDecl}
  {change : Location → String → TargetDecl → TargetDecl}

/-- A source whose declarations are changed. -/
def changed (source : TargetSource m) (change : Location → String → TargetDecl → TargetDecl) : TargetSource m :=
  { source with declaration := fun file name => return (← source.declaration file name).map (change file name) }

/-- The bases of a target are merged without regard to how the target itself is spelled. -/
theorem foldOver_spells (h : d.Spells d') (source : TargetSource m) (load : String → TargetKey → Step m Resolved)
    (file : Location) : foldOver source load file d' = foldOver source load file d := by
  rcases h with rfl | ⟨hdistinct, rfl⟩
  · rfl
  · have hown : mergeOwn d.respelled = mergeOwn d := by
      funext tree
      unfold mergeOwn
      rw [TargetDecl.ofDecl_respelled hdistinct]
      rfl
    unfold foldOver
    rw [TargetDecl.legacyWarnings_respelled, hown]
    rfl

variable [LawfulMonad m]

theorem ask_map {α β : Type} (x : ExceptT Error m α) (f : α → β) :
    (ask (do return f (← x)) : Step m β) = do return f (← ask x) := by
  refine ExceptT.ext (StateT.ext fun v => ?_)
  have hask : ∀ {γ : Type} (y : ExceptT Error m γ), StateT.run (ExceptT.run (ask y)) v = (fun r => (r, v)) <$> y.run :=
    fun y => map_eq_pure_bind _ _ |>.symm
  rw [hask, ExceptT.run_bind, ExceptT.run_bind, StateT.run_bind, hask, map_bind, bind_map_left]
  refine bind_congr fun r => ?_
  cases r with
  | error e => exact map_pure _ _
  | ok a => exact map_pure _ _

theorem fold_spells (hchange : ∀ file name d, TargetDecl.Spells d (change file name d)) (source : TargetSource m)
    (room : Nat) (file : Location) (h : d.Spells d') :
    fold (changed source change) room file d' = fold source room file d := by
  induction room generalizing file d d' with
  | zero => exact foldOver_spells h source _ file
  | succ room ih =>
    obtain ⟨hname, hbases⟩ : derivedName d' = derivedName d ∧ d'.bases = d.bases := by
      rcases h with rfl | ⟨-, rfl⟩ <;> exact ⟨rfl, rfl⟩
    refine (foldOver_spells h source _ file).trans (congrArg (foldOver source · file d) ?_)
    funext reference key
    dsimp only [changed]
    rw [ask_map, bind_assoc]
    refine bind_congr fun found => ?_
    rw [pure_bind]
    cases found with
    | none => rw [hname]; rfl
    | some base =>
      have hbase := hchange key.file key.name base
      have hoverrides : (change key.file key.name base).overrides = base.overrides := by
        rcases hbase with h | ⟨-, h⟩
        · rw [h]
        · rw [h]
          rfl
      dsimp only [Option.map]
      rw [hoverrides, ← ih key.file hbase]
      rfl

/-- A target has the same spec however it and its bases are spelled. -/
theorem specOf_spells (hchange : ∀ file name d, TargetDecl.Spells d (change file name d)) (source : TargetSource m)
    (room : Nat) (file : Location) (h : d.Spells d') :
    specOf (changed source change) room file d' = specOf source room file d := by
  obtain ⟨hname, hoverrides⟩ : d'.name = d.name ∧ d'.overrides = d.overrides := by
    rcases h with rfl | ⟨-, rfl⟩ <;> exact ⟨rfl, rfl⟩
  have hmerged : merged (changed source change) room file d' = merged source room file d := by
    unfold merged
    rw [fold_spells hchange source room file h, hoverrides]
  unfold specOf
  rw [hname, hmerged]

end Inheritance

/-! ### Bits -/

namespace DefaultsSpec

variable {defaults : Table Tree}

/-- The variables and queries of defaults, with the older queries among the queries. -/
def anew (defaults : Table Tree) : Legacy.Lifted := Legacy.respell (declaredContext defaults) (tableAt defaults "queries")

/-- Defaults with their older queries among their queries. Where they keep their variables in no part `context`, the
older queries are parts of their own. -/
def respelled (defaults : Table Tree) : Table Tree :=
  (if isStructured defaults then defaults.put "context" (.map (anew defaults).context)
    else defaults.kept (Legacy.stays (declaredContext defaults) (tableAt defaults "queries"))).put
    "queries" (.map (anew defaults).queries)

theorem tableAt_put (t : Table Tree) (key : String) (entries : Table Tree) (k : String) :
    tableAt (t.put key (.map entries)) k = if k = key then entries else tableAt t k := by
  unfold tableAt
  rw [Table.valueAt?_put]
  split <;> rfl

/-- The variables that are left are read where they were. -/
theorem declaredContext_respelled (h : isStructured (respelled defaults) = isStructured defaults) :
    declaredContext (respelled defaults) = (anew defaults).context := by
  rw [declaredContext, h]
  unfold respelled
  cases hstructured : isStructured defaults with
  | true =>
    rw [if_pos rfl, if_pos rfl, tableAt_put, if_neg (by decide), tableAt_put, if_pos rfl]
  | false =>
    have hbare : declaredContext defaults = defaults.filter fun e => e.1 != "queries" && e.1 != "compose" := by
      rw [declaredContext, hstructured]
      rfl
    rw [if_neg Bool.false_ne_true, if_neg Bool.false_ne_true, anew, Legacy.respell,
      Table.filter_put_of_neg (p := fun k => k != "queries" && k != "compose") _ rfl]
    unfold Table.kept
    rw [List.filter_filter]
    conv_rhs => rw [hbare]
    rw [List.filter_filter, ← hbare]
    exact List.filter_congr fun e _ => Bool.and_comm _ _

theorem tableAt_compose_respelled (defaults : Table Tree) :
    tableAt (respelled defaults) "compose" = tableAt defaults "compose" := by
  have hstays : ∀ c q, Legacy.stays c q "compose" = true := fun c q => by
    rw [Legacy.stays, Table.hasKey_eq_false.mpr fun h => absurd (Legacy.mem_keyList_moved.mp h).1 (by decide)]
    rfl
  unfold respelled
  rw [tableAt_put, if_neg (by decide)]
  cases isStructured defaults with
  | true => rw [if_pos rfl, tableAt_put, if_neg (by decide)]
  | false =>
    rw [if_neg Bool.false_ne_true, tableAt, Table.valueAt?_kept (hstays _ _)]
    rfl

end DefaultsSpec

/-- A bit is the same bit however its defaults are spelled, if they are read alike. -/
theorem Bit.ofDecl_respelled {d : BitDecl} (hcontext : (DefaultsSpec.declaredContext d.defaults).Distinct)
    (h : DefaultsSpec.isStructured (DefaultsSpec.respelled d.defaults) = DefaultsSpec.isStructured d.defaults)
    (commonTags : List String) :
    Bit.ofDecl { d with defaults := DefaultsSpec.respelled d.defaults } commonTags = Bit.ofDecl d commonTags := by
  have hqueries : DefaultsSpec.tableAt (DefaultsSpec.respelled d.defaults) "queries" =
      (DefaultsSpec.anew d.defaults).queries := DefaultsSpec.tableAt_put _ _ _ _
  have hspec : DefaultsSpec.ofTable (DefaultsSpec.respelled d.defaults) = .ofTable d.defaults := by
    unfold DefaultsSpec.ofTable
    rw [DefaultsSpec.declaredContext_respelled h, hqueries, DefaultsSpec.tableAt_compose_respelled, DefaultsSpec.anew,
      Legacy.lift_respell hcontext]
  have hwarnings : DefaultsSpec.warnings (DefaultsSpec.respelled d.defaults) = DefaultsSpec.warnings d.defaults := by
    unfold DefaultsSpec.warnings
    rw [DefaultsSpec.declaredContext_respelled h, hqueries, DefaultsSpec.anew, Legacy.warnings_respell]
  unfold Bit.ofDecl
  dsimp only
  rw [hspec, hwarnings]
  rfl

end Bitpress
