import Bitpress.Compose
import Bitpress.Proofs.Layering
import Bitpress.Proofs.Steady
import Bitpress.Proofs.Table

/-!
Composing more results than others.

What composing makes are lists under distinct names (`Context.Listed`). A compose
map that neither names, nor makes, nor joins some of the results composes the
others as if these were not there (`Compose.run_kept`). These are composed as
without a compose map (`Compose.dropped_of_run`).
-/

namespace Bitpress

def ContextValue.IsList (v : ContextValue) : Prop := ∃ items, v = .list items

/-- Variables as they are composed. -/
def Context.Listed (c : Context) : Prop := Table.Distinct c ∧ ∀ e ∈ c, e.2.IsList

namespace Context.Listed

variable {c : Context} {key : String}

theorem nil : Listed [] := ⟨List.nodup_nil, fun _ h => by cases h⟩

theorem put (h : Listed c) (key : String) (items : List ContextValue) : Listed (Table.put c key (.list items)) :=
  ⟨h.1.put key _, Table.forall_put h.2 ⟨items, rfl⟩⟩

theorem keyed (h : Listed c) : (ContextValue.map c).Keyed := by
  intro path entries he
  cases path with
  | nil =>
    cases he
    exact h.1
  | cons key rest =>
    obtain ⟨_, v, hmap, hv, he⟩ := ContextValue.exists_of_at?_cons he
    cases hmap
    obtain ⟨items, hitems⟩ := h.2 _ (Table.mem_of_valueAt? hv)
    dsimp only at hitems
    subst hitems
    cases rest <;> cases he

end Context.Listed

namespace Compose

theorem addEntry_listed {p : Progress} (hp : p.output.Listed) (name : String) (groups : List (List ContextValue))
    (grouped : Bool) (spec : ComposeSpec) (s : Session) :
    Obeys Press.ahead (addEntry p name groups grouped spec) s fun p' _ => p'.output.Listed := by
  have hadd : ∀ made, (p.add name spec made).output.Listed := by
    intro made
    cases made with
    | flat items => exact hp.put _ _
    | grouped groups => exact hp.put _ _
  refine ⟨trivial, ((addEntry_steady p name groups grouped spec).advances s).le, fun p' t h => ?_⟩
  obtain ⟨made, rfl⟩ := exists_add_of_addEntry h
  exact hadd made

theorem run_listed (results : Table QueryResult) (specs : Table ComposeSpec) (s : Session) :
    Obeys Press.ahead (run results specs) s fun v _ => v.Listed := by
  have hplain : Obeys Press.ahead (results.foldlM
      (fun p e => addEntry p e.1 e.2.groups e.2.isMulti (entryFor specs e.1)) ({} : Progress)) s fun p _ => p.output.Listed :=
    .foldlM trivial .nil fun p e t _ _ _ hp => addEntry_listed hp _ _ _ _ t
  refine hplain.bind fun plain t _ _ hp => ?_
  refine Obeys.bind (.foldlM trivial hp fun p e u _ _ _ hp => ?_) fun all u _ _ hall => .pure trivial hall
  split
  · exact Obeys.bind (Press.Advances.warnAll _ u) fun _ v _ _ _ => addEntry_listed hp _ _ _ _ v
  · exact .pure trivial hp

end Compose

/-- What the queries of a map find is composed. -/
theorem Resolver.run_listed {r : Resolver} {overlay : Bit → Option PresetSelector → Build Context}
    {queries compose : Table Tree} {s t : Building} {v : Context}
    (h : effect (r.run overlay queries compose) s = (.ok v, t)) : v.Listed := by
  obtain ⟨results, _, _, h⟩ := effect_bind_eq_ok.mp h
  split at h
  · cases h
    exact .nil
  · obtain ⟨specs, u, _, h⟩ := effect_bind_eq_ok.mp h
    exact (Compose.run_listed results specs _).ok v _ (Build.effect_of_press_eq_ok h)

/-! ### Results that are kept -/

namespace Compose

variable {keep : String → Bool} {p : Progress} {specs : Table ComposeSpec} {name : String}

/-- The variables made so far of some names. -/
def Progress.kept (p : Progress) (keep : String → Bool) : Progress := ⟨p.output.kept keep, p.composed.kept keep⟩

/-- A compose map has to do with some names only. -/
def Spares (keep : String → Bool) (specs : Table ComposeSpec) : Prop :=
  ∀ e ∈ specs, keep e.1 = true ∧ keep (e.2.outName.getD e.1) = true ∧ ∀ s ∈ e.2.sources.getD [], keep s = true

instance : Decidable (Spares keep specs) := inferInstanceAs (Decidable (∀ _ ∈ specs, _))

/-- What a result comes to that nothing shapes. -/
def plain (r : QueryResult) : ContextValue := .list r.groups.flatten

def plainly (results : Table QueryResult) (output : Context) : Context :=
  results.foldl (fun output e => output.put e.1 (plain e.2)) output

/-! ### One entry -/

theorem Progress.add_kept (hname : keep name = true) {spec : ComposeSpec} (hout : keep (spec.outName.getD name) = true)
    (p : Progress) (made : Composed) : (p.kept keep).add name spec made = (p.add name spec made).kept keep := by
  unfold add Progress.kept
  dsimp only
  rw [Table.kept_put hout, Table.kept_put hname]
  split
  · rfl
  · rw [Table.kept_put hout]

theorem addEntry_kept (hname : keep name = true) {spec : ComposeSpec} (hout : keep (spec.outName.getD name) = true)
    (p : Progress) (groups : List (List ContextValue)) (grouped : Bool) :
    addEntry (p.kept keep) name groups grouped spec = (·.kept keep) <$> addEntry p name groups grouped spec := by
  rw [addEntry_eq, addEntry_eq, map_bind]
  refine bind_congr fun source => ?_
  cases one source groups grouped spec with
  | error e => rfl
  | ok made => exact congrArg pure (Progress.add_kept hname hout p made)

/-- An entry without options joins the groups of a result, and nothing goes wrong. -/
theorem addEntry_plain (p : Progress) (name : String) (r : QueryResult) :
    addEntry p name r.groups r.isMulti {} = pure (p.add name {} (.flat r.groups.flatten)) := by
  have hone : ∀ source, one source r.groups r.isMulti {} = .ok (.flat r.groups.flatten) := by
    intro source
    cases r <;> rfl
  unfold addEntry
  simp only [hone]
  rfl

theorem dropped_of_addEntry {spec : ComposeSpec} (hout : keep (spec.outName.getD name) = true)
    {groups : List (List ContextValue)} {grouped : Bool} {s t : Session} {p' : Progress}
    (h : effect (addEntry p name groups grouped spec) s = (.ok p', t)) :
    p'.output.dropped keep = p.output.dropped keep := by
  obtain ⟨made, rfl⟩ := exists_add_of_addEntry h
  exact Table.dropped_put_of_kept hout p.output made.toValue

/-! ### All entries -/

theorem Spares.out_entryFor (h : Spares keep specs) (hname : keep name = true) :
    keep ((entryFor specs name).outName.getD name) = true := by
  unfold entryFor
  split
  · rename_i spec hspec
    split
    · exact (h _ (Table.mem_of_valueAt? hspec)).2.1
    · exact hname
  · exact hname

theorem Spares.entryFor_eq (h : Spares keep specs) (hname : keep name = false) : entryFor specs name = {} := by
  unfold entryFor
  split
  · rename_i spec hspec
    cases hname.symm.trans (h _ (Table.mem_of_valueAt? hspec)).1
  · rfl

/-- What the results make that no entry joins. -/
def singly (specs : Table ComposeSpec) (results : Table QueryResult) (p : Progress) : Press Progress :=
  results.foldlM (fun p e => addEntry p e.1 e.2.groups e.2.isMulti (entryFor specs e.1)) p

/-- What the entries join. -/
def jointly (results : Table QueryResult) (specs : Table ComposeSpec) (p : Progress) : Press Progress :=
  specs.foldlM (fun p e =>
    match e.2.sources with
    | some sources => addAggregate results p e.1 e.2 sources
    | none => return p) p

theorem run_eq (results : Table QueryResult) (specs : Table ComposeSpec) :
    run results specs = (do return (← jointly results specs (← singly specs results {})).output) := rfl

theorem singly_kept (h : Spares keep specs) (results : Table QueryResult) (p : Progress) :
    singly specs (results.kept keep) (p.kept keep) = (·.kept keep) <$> singly specs results p := by
  induction results generalizing p with
  | nil => rfl
  | cons e rest ih =>
    unfold singly Table.kept at *
    by_cases hname : keep e.1 = true
    · rw [List.filter_cons, if_pos hname, List.foldlM_cons, List.foldlM_cons, addEntry_kept hname (h.out_entryFor hname),
        map_bind, bind_map_left]
      exact bind_congr ih
    · have hdropped : keep e.1 = false := Bool.eq_false_iff.mpr hname
      rw [List.filter_cons, if_neg hname, List.foldlM_cons, h.entryFor_eq hdropped, addEntry_plain, pure_bind, ← ih]
      congr 1
      unfold Progress.kept
      rw [Progress.add]
      dsimp only [Option.getD_none]
      rw [if_pos rfl, Table.kept_put_of_dropped hdropped, Table.kept_put_of_dropped hdropped]

theorem sourceGroups?_kept {source : String} (hsource : keep source = true) (p : Progress) (results : Table QueryResult) :
    sourceGroups? (p.kept keep) (results.kept keep) source = sourceGroups? p results source := by
  unfold sourceGroups? Progress.kept
  dsimp only
  rw [Table.valueAt?_kept hsource, Table.valueAt?_kept hsource]

theorem addAggregate_kept (hname : keep name = true) {spec : ComposeSpec} (hout : keep (spec.outName.getD name) = true)
    {sources : List String} (hsources : ∀ s ∈ sources, keep s = true) (p : Progress) (results : Table QueryResult) :
    addAggregate (results.kept keep) (p.kept keep) name spec sources =
      (·.kept keep) <$> addAggregate results p name spec sources := by
  have hfound : sources.map (fun s => (s, sourceGroups? (p.kept keep) (results.kept keep) s)) =
      sources.map fun s => (s, sourceGroups? p results s) :=
    List.map_congr_left fun s hs => by rw [sourceGroups?_kept (hsources s hs)]
  unfold addAggregate
  rw [hfound, map_bind]
  exact bind_congr fun _ => addEntry_kept hname hout p _ true

theorem jointly_kept (h : Spares keep specs) (results : Table QueryResult) (p : Progress) :
    jointly (results.kept keep) specs (p.kept keep) = (·.kept keep) <$> jointly results specs p := by
  induction specs generalizing p with
  | nil => rfl
  | cons e rest ih =>
    obtain ⟨⟨hname, hout, hsources⟩, hrest⟩ := List.forall_mem_cons.mp h
    unfold jointly at *
    rw [List.foldlM_cons, List.foldlM_cons, map_bind]
    cases hjoins : e.2.sources with
    | none =>
      rw [pure_bind, pure_bind]
      exact ih hrest p
    | some sources =>
      have hjoined : ∀ s ∈ sources, keep s = true := fun s hs => hsources s (hjoins ▸ hs)
      dsimp only
      rw [addAggregate_kept hname hout hjoined, bind_map_left]
      exact bind_congr (ih hrest)

/-- The results that the entries have to do with are composed as if there were no others. -/
theorem run_kept (h : Spares keep specs) (results : Table QueryResult) :
    run (results.kept keep) specs = (·.kept keep) <$> run results specs := by
  have hsingly : singly specs (results.kept keep) {} = (·.kept keep) <$> singly specs results {} := singly_kept h results {}
  rw [run_eq, run_eq, hsingly, map_bind, bind_map_left]
  refine bind_congr fun plain => ?_
  rw [jointly_kept h, map_bind, bind_map_left]
  exact bind_congr fun all => (map_pure _ _).symm

theorem dropped_of_singly (h : Spares keep specs) {results : Table QueryResult} {s t : Session} {p' : Progress}
    (heffect : effect (singly specs results p) s = (.ok p', t)) :
    p'.output.dropped keep = plainly (results.dropped keep) (p.output.dropped keep) := by
  induction results generalizing p s with
  | nil =>
    cases heffect
    rfl
  | cons e rest ih =>
    unfold singly at heffect
    rw [List.foldlM_cons] at heffect
    obtain ⟨p₁, s₁, hfirst, hrest⟩ := effect_bind_eq_ok.mp heffect
    rw [ih hrest]
    unfold Table.dropped
    by_cases hname : keep e.1 = true
    · rw [List.filter_cons, if_neg (by rw [hname]; decide)]
      exact congrArg (plainly _) (dropped_of_addEntry (h.out_entryFor hname) hfirst)
    · have hdropped : keep e.1 = false := Bool.eq_false_iff.mpr hname
      rw [h.entryFor_eq hdropped, addEntry_plain] at hfirst
      cases hfirst
      have hdrops : (!keep e.1) = true := by rw [hdropped, Bool.not_false]
      rw [List.filter_cons, if_pos hdrops]
      exact congrArg (plainly _) (Table.dropped_put hdropped p.output (plain e.2))

theorem dropped_of_jointly (h : Spares keep specs) {results : Table QueryResult} {s t : Session} {p' : Progress}
    (heffect : effect (jointly results specs p) s = (.ok p', t)) : p'.output.dropped keep = p.output.dropped keep := by
  induction specs generalizing p s with
  | nil =>
    cases heffect
    rfl
  | cons e rest ih =>
    obtain ⟨⟨-, hout, -⟩, hrest⟩ := List.forall_mem_cons.mp h
    unfold jointly at heffect
    rw [List.foldlM_cons] at heffect
    obtain ⟨p₁, s₁, hfirst, heffect⟩ := effect_bind_eq_ok.mp heffect
    rw [ih hrest heffect]
    split at hfirst
    · obtain ⟨_, _, -, hfirst⟩ := effect_bind_eq_ok.mp hfirst
      exact dropped_of_addEntry hout hfirst
    · cases hfirst
      rfl

/-- All other results are composed plainly. -/
theorem dropped_of_run (h : Spares keep specs) {results : Table QueryResult} {s t : Session} {out : Context}
    (heffect : effect (run results specs) s = (.ok out, t)) : out.dropped keep = plainly (results.dropped keep) [] := by
  rw [run_eq] at heffect
  obtain ⟨single, s₁, hsingle, heffect⟩ := effect_bind_eq_ok.mp heffect
  obtain ⟨all, s₂, hall, heffect⟩ := effect_bind_eq_ok.mp heffect
  cases heffect
  rw [dropped_of_jointly h hall]
  exact dropped_of_singly h hsingle

end Compose

end Bitpress
