import Bitpress.Proofs.Step
import Bitpress.Proofs.Wording
import Bitpress.Resolution

/-!
What the queries of a map lead to.

A query stands in a map under a name (`QuerySpec.Stands`). The variables that it
lays over the bits it finds may come from further queries, those of its `context`
and of its `with` clause (`QuerySpec.inner`). These are parts of the query, so
they are nested less deep than the map it stands in (`QuerySpec.Stands.below`).

Queries are run with room for how deep the map that they stand in is nested. More
room makes no difference (`Resolver.runNested_eq`), so that each query of a map may
be run with room for itself alone (`Resolver.run_eq`).
-/

namespace Bitpress

open Outcome

/-! ### Depth -/

/-- The values of a table are nested less deep than `n`. -/
def Table.Below (n : Nat) (t : Table Tree) : Prop := ∀ e ∈ t, e.2.depth < n

namespace Tree

variable {n : Nat}

theorem depthEntries_lt (hn : 0 < n) {t : Table Tree} : depthEntries t < n ↔ t.Below n := by
  induction t with
  | nil => exact ⟨fun _ _ h => (by cases h), fun _ => hn⟩
  | cons e rest ih =>
    unfold Table.Below
    rw [List.forall_mem_cons]
    exact Nat.max_lt.trans (and_congr Iff.rfl ih)

theorem below_depth (t : Table Tree) : t.Below (depth (.map t)) :=
  (depthEntries_lt (Nat.succ_pos _)).mp (Nat.lt_succ_self _)

theorem depth_le_depthItems {v : Tree} {items : List Tree} (h : v ∈ items) : v.depth ≤ depthItems items := by
  induction items with
  | nil => cases h
  | cons first rest ih =>
    rcases List.mem_cons.mp h with rfl | h
    · exact Nat.le_max_left ..
    · exact Nat.le_trans (ih h) (Nat.le_max_right ..)

theorem IsPart.depth_lt {t v : Tree} (h : v.IsPart t) : v.depth < t.depth := by
  cases t with
  | list items => exact Nat.lt_succ_of_le (depth_le_depthItems h)
  | map entries =>
    obtain ⟨key, h⟩ := h
    exact below_depth entries (key, v) h
  | _ => cases h

end Tree

theorem Table.Below.mono {t : Table Tree} {m n : Nat} (h : t.Below m) (hle : m ≤ n) : t.Below n :=
  fun e he => Nat.lt_of_lt_of_le (h e he) hle

theorem Table.Below.pos {t : Table Tree} {n : Nat} (h : t.Below n) (ht : t ≠ []) : 0 < n := by
  obtain ⟨e, he⟩ := List.exists_mem_of_ne_nil t ht
  exact Nat.zero_lt_of_lt (h e he)

theorem Decode.table_below {t : Tree} {entries : Table Tree} (h : table t = .ok entries) :
    entries.Below t.depth := by
  cases t with
  | map inner =>
    cases h
    exact Tree.below_depth entries
  | _ => cases h

/-! ### Queries inside queries -/

/-- The older queries among the variables of a context. -/
def Legacy.queriesOf (context : Table Tree) : Table Tree := (lift context []).queries

theorem Legacy.queriesOf_below {context : Table Tree} {n : Nat} (h : context.Below n) : (queriesOf context).Below n :=
  have hempty : ∀ e ∈ ([] : Table Tree), e.2.depth < n := fun _ he => by cases he
  (@forall_lift (fun t => t.depth < n) context [] h hempty).2

namespace QuerySpec

/-- The maps of queries that are run for the variables of what a query finds. -/
def inner (q : QuerySpec) : List (Table Tree) :=
  Legacy.queriesOf q.context :: match q.with with
    | some w => [Legacy.queriesOf w.context, w.queries]
    | none => []

/-- A query is one of the entry with a name. -/
def Stands (t : Table Tree) (name : String) (q : QuerySpec) : Prop :=
  ∃ tree entry, (name, tree) ∈ t ∧ QueryEntry.read name tree = .ok entry ∧ q ∈ entry.specs

/-- The maps of a query are nested less deep than `n`. -/
structure Below (n : Nat) (q : QuerySpec) : Prop where
  context : q.context.Below n
  «with» : ∀ w, q.with = some w → 0 < n ∧ w.context.Below n ∧ w.queries.Below n

variable {q : QuerySpec} {t u : Table Tree} {name : String} {n : Nat}

theorem below_empty (n : Nat) : ({} : QuerySpec).Below n := ⟨fun _ h => (by cases h), fun _ h => (by cases h)⟩

theorem Below.mono {m : Nat} (h : q.Below m) (hle : m ≤ n) : q.Below n :=
  ⟨h.context.mono hle, fun w hw =>
    have ⟨hpos, hcontext, hqueries⟩ := h.with w hw
    ⟨Nat.lt_of_lt_of_le hpos hle, hcontext.mono hle, hqueries.mono hle⟩⟩

theorem Below.inner (h : q.Below n) (hu : u ∈ q.inner) : u.Below n := by
  rcases List.mem_cons.mp hu with rfl | hu
  · exact Legacy.queriesOf_below h.context
  · cases hw : q.with with
    | none =>
      rw [hw] at hu
      cases hu
    | some w =>
      rw [hw] at hu
      obtain ⟨_, hcontext, hqueries⟩ := h.with w hw
      simp only [List.mem_cons, List.not_mem_nil, or_false] at hu
      rcases hu with rfl | rfl
      · exact Legacy.queriesOf_below hcontext
      · exact hqueries

end QuerySpec

theorem WithClause.decode_below {t : Tree} {w : WithClause} (h : decode t = .ok w) :
    w.context.Below t.depth ∧ w.queries.Below t.depth := by
  have hempty : ∀ n, Table.Below n [] := fun n e he => by cases he
  refine Decode.fieldsOrItems_keeps
    (q := fun w : WithClause => w.context.Below t.depth ∧ w.queries.Below t.depth)
    (fun key v s s' hpart hs hs' => ?_) ⟨hempty _, hempty _⟩ h
  unfold field at hs'
  split at hs'
  · obtain ⟨entries, hentries, hs'⟩ := bind_eq_ok.mp hs'
    cases hs'
    exact ⟨(Decode.table_below hentries).mono (Nat.le_of_lt hpart.depth_lt), hs.2⟩
  · obtain ⟨entries, hentries, hs'⟩ := bind_eq_ok.mp hs'
    cases hs'
    exact ⟨hs.1, (Decode.table_below hentries).mono (Nat.le_of_lt hpart.depth_lt)⟩
  · cases hs'

namespace QuerySpec

variable {q : QuerySpec} {t u : Table Tree} {name : String} {n : Nat}

theorem decode_below {t : Tree} (h : decode t = .ok q) : q.Below t.depth := by
  refine Decode.fieldsOrItems_keeps (fun key v s s' hpart hs hs' => ?_) (below_empty _) h
  unfold field at hs'
  split at hs' <;> try
    obtain ⟨read, hread, hs'⟩ := bind_eq_ok.mp hs'
  all_goals cases hs'
  case h_7 =>
    refine ⟨hs.context, fun w hw => ?_⟩
    have hclause := WithClause.decode_below (Decode.optional_eq_some (hread.trans (congrArg _ hw)))
    have hle := Nat.le_of_lt hpart.depth_lt
    exact ⟨Nat.zero_lt_of_lt hpart.depth_lt, hclause.1.mono hle, hclause.2.mono hle⟩
  case h_8 => exact ⟨(Decode.table_below hread).mono (Nat.le_of_lt hpart.depth_lt), hs.with⟩
  all_goals exact ⟨hs.context, hs.with⟩

/-- The queries of a map are nested less deep than the map. -/
theorem Stands.below (hq : Stands t name q) (ht : t.Below (n + 1)) : q.Below n := by
  obtain ⟨tree, entry, hmem, hread, hspec⟩ := hq
  have hle : tree.depth ≤ n := Nat.le_of_lt_succ (ht _ hmem)
  obtain rfl | hdecode | ⟨item, hitem, hdecode⟩ := QueryEntry.spec_cases hread hspec
  · exact below_empty n
  · exact (decode_below hdecode).mono hle
  · exact (decode_below hdecode).mono (Nat.le_trans (Nat.le_of_lt hitem.depth_lt) hle)

end QuerySpec

/-- A map of queries stands inside another: its queries are run for what a query of the other finds. -/
def Inside (t u : Table Tree) : Prop := ∃ name q, QuerySpec.Stands t name q ∧ u ∈ q.inner

/-! ### Room -/

section Congr
variable {α β : Type} {m : Type → Type} [Monad m]

theorem bind_congr_left {x y : m α} (h : x = y) (f : α → m β) : x >>= f = y >>= f := by rw [h]

theorem mapM_congr [LawfulMonad m] {f g : α → m β} {xs : List α} (h : ∀ a ∈ xs, f a = g a) : xs.mapM f = xs.mapM g := by
  induction xs with
  | nil => rfl
  | cons a rest ih =>
    obtain ⟨ha, hrest⟩ := List.forall_mem_cons.mp h
    rw [List.mapM_cons, List.mapM_cons, ha, ih hrest]

theorem foldlM_congr {f g : β → α → m β} {xs : List α} (h : ∀ b, ∀ a ∈ xs, f b a = g b a) (b : β) :
    xs.foldlM f b = xs.foldlM g b := by
  induction xs generalizing b with
  | nil => rfl
  | cons a rest ih =>
    rw [List.foldlM_cons, List.foldlM_cons, h b a (List.mem_cons_self ..)]
    exact congrArg (g b a >>= ·) (funext fun b' => ih (fun b a ha => h b a (List.mem_cons_of_mem _ ha)) b')

theorem Build.ofOutcome_bind_congr {r : Outcome α} {f g : α → Build β} (h : ∀ a, r = .ok a → f a = g a) :
    Build.ofOutcome r >>= f = Build.ofOutcome r >>= g := by
  cases r with
  | error e => rfl
  | ok a => exact h a rfl

end Congr

namespace Resolver

variable {r : Resolver} {overlay : Bit → Option PresetSelector → Build Context}
  {run run' : Table Tree → Table Tree → Build Context} {q : QuerySpec} {name : String} {tree : Tree}
  {queries compose : Table Tree} {depth depth' : Nat}

theorem variablesOf_congr {t : Table Tree}
    (h : Legacy.queriesOf t ≠ [] → run (Legacy.queriesOf t) [] = run' (Legacy.queriesOf t) []) :
    variablesOf run t = variablesOf run' t := by
  unfold variablesOf
  dsimp only
  split
  · rfl
  · rename_i hsome
    have hne : Legacy.queriesOf t ≠ [] := fun hnil => hsome (List.isEmpty_iff.mpr hnil)
    exact bind_congr_left (h hne) _

theorem blocksOf_congr (h : ∀ u ∈ q.inner, u ≠ [] ∨ q.with.isSome → run u [] = run' u []) :
    r.blocksOf overlay run q = r.blocksOf overlay run' q := by
  have hcontext : variablesOf run q.context = variablesOf run' q.context :=
    variablesOf_congr fun hne => h _ (List.mem_cons_self ..) (.inl hne)
  unfold blocksOf
  rw [hcontext]
  cases hwith : q.with with
  | none => rfl
  | some clause =>
    have hinner : q.inner = [Legacy.queriesOf q.context, Legacy.queriesOf clause.context, clause.queries] := by
      rw [QuerySpec.inner, hwith]
    have hsome : q.with.isSome := by
      rw [hwith]
      rfl
    have hclause : variablesOf run clause.context = variablesOf run' clause.context :=
      variablesOf_congr fun _ => h _ (by simp [hinner]) (.inr hsome)
    have hqueries : run clause.queries [] = run' clause.queries [] := h _ (by simp [hinner]) (.inr hsome)
    simp only [hclause, hqueries]

/-- What the queries of one name find depends on how the queries inside them are run. -/
theorem resultOf_congr (h : ∀ q, QuerySpec.Stands [(name, tree)] name q → ∀ u ∈ q.inner, u ≠ [] ∨ q.with.isSome →
    run u [] = run' u []) : r.resultOf overlay run name tree = r.resultOf overlay run' name tree := by
  unfold resultOf
  refine Build.ofOutcome_bind_congr fun entry hread => bind_congr_left (mapM_congr fun q hq => ?_) _
  rw [blocksOf_congr (h q ⟨tree, entry, List.mem_singleton.mpr rfl, hread, hq⟩)]

/-- The queries of one name need room for those inside them. -/
theorem resultOf_eq (hrun : ∀ {inner : Table Tree}, 0 < tree.depth → inner.Below tree.depth →
    r.runNested overlay depth inner [] = r.runNested overlay depth' inner []) :
    r.resultOf overlay (r.runNested overlay depth) name tree =
      r.resultOf overlay (r.runNested overlay depth') name tree := by
  refine resultOf_congr fun q hq u hu hcalled => ?_
  have hbelow : q.Below tree.depth := hq.below fun e he => by
    rw [List.mem_singleton.mp he]
    exact Nat.lt_succ_self _
  refine hrun ?_ (hbelow.inner hu)
  rcases hcalled with hne | hwith
  · exact (hbelow.inner hu).pos hne
  · obtain ⟨clause, hclause⟩ := Option.isSome_iff_exists.mp hwith
    exact (hbelow.with clause hclause).1

/-- More room than queries need makes no difference. -/
theorem runNested_eq (hdepth : 0 < depth) (hdepth' : 0 < depth') (h : queries.Below depth) (h' : queries.Below depth') :
    r.runNested overlay depth queries compose = r.runNested overlay depth' queries compose := by
  induction depth generalizing depth' queries compose with
  | zero => omega
  | succ depth ih =>
    obtain ⟨depth', rfl⟩ : ∃ n, depth' = n + 1 := ⟨depth' - 1, by omega⟩
    unfold runNested
    refine bind_congr_left (foldlM_congr (fun results e he => ?_) []) _
    have hle : e.2.depth ≤ depth := Nat.le_of_lt_succ (h e he)
    have hle' : e.2.depth ≤ depth' := Nat.le_of_lt_succ (h' e he)
    rw [resultOf_eq fun hpos hinner =>
      ih (by omega) (by omega) (hinner.mono hle) (hinner.mono hle')]

/-- Runs the queries of one name, with room for those inside them. -/
def asked (r : Resolver) (overlay : Bit → Option PresetSelector → Build Context) (e : String × Tree) : Build QueryResult :=
  Build.within ("could not resolve query \u0060" ++ e.1 ++ "\u0060")
    (r.resultOf overlay (r.runNested overlay e.2.depth) e.1 e.2)

/-- Runs queries one after the other, and adds what they find to what others have found. -/
def findings (r : Resolver) (overlay : Bit → Option PresetSelector → Build Context) (queries : Table Tree)
    (found : Table QueryResult) : Build (Table QueryResult) :=
  queries.foldlM (fun found e => do
    let result ← r.asked overlay e
    return found.put e.1 result) found

theorem run_eq (queries compose : Table Tree) : r.run overlay queries compose = (do
    let results ← r.findings overlay queries []
    if results.isEmpty && compose.isEmpty then return []
    Build.press (Compose.run results (← Build.ofOutcome (ComposeSpec.readTable compose)))) := by
  unfold run runNested
  refine bind_congr_left (foldlM_congr (fun results e he => ?_) []) _
  have hle : e.2.depth ≤ Tree.depth (.map queries) := Nat.le_of_lt (Tree.below_depth queries e he)
  rw [resultOf_eq fun hpos hinner =>
    runNested_eq (by omega) hpos (hinner.mono hle) hinner]
  rfl

/-- The older queries of a map are run whether or not there are any. -/
theorem variablesOf_eq (context : Table Tree) : variablesOf (r.run overlay) context = (do
    return (Context.ofTable (Legacy.lift context []).context).merge (← r.run overlay (Legacy.queriesOf context) [])) := by
  unfold variablesOf
  dsimp only
  split
  · rename_i hempty
    have hnone : r.run overlay (Legacy.queriesOf context) [] = pure [] := by
      rw [show Legacy.queriesOf context = [] from List.isEmpty_iff.mp hempty]
      rfl
    have hmerged : ∀ c : Context, c.merge [] = c := fun c => by
      unfold Context.merge ContextValue.overlayEntries
      rfl
    rw [hnone, pure_bind, hmerged]
  · rfl

end Resolver

end Bitpress
