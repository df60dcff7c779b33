import Bitpress.Proofs.Import.Setting
import Bitpress.Proofs.Preset.Resolve

/-!
Building a registry.

The build of a registry makes its own elements, loads its imports, and resolves
its queries and targets. It comes to contents with just what the file and the
imports give (`Load.build_comes`), provided that what it requests can be loaded.
-/

namespace Bitpress

namespace Load

open Store

variable {α : Type} {l : Library} {R : Location → Location → Prop} {generation : Nat}
  {fetch : Location → StoreM Unit} {trail : List Location} {p : Location} {d : RegistryDocument} {base : Store} {own : List Bit} {s : Building}

/-- A build that began with an earlier store. -/
theorem building_rebase {base' : Store} {own' : List Bit} {x : Build α} {post : α → Building → Prop}
    (h : Grown base' base) (hx : Comes (building l R generation trail p base own) x s post) :
    Comes (building l R generation trail p base' own') x s post := by
  refine ⟨fun a t ht => ?_, hx.error⟩
  obtain ⟨hinv, hle, hpost⟩ := hx.ok a t ht
  exact ⟨⟨hinv.1, h.trans hinv.2.1, hinv.2.2⟩, hle, hpost⟩

theorem building_of_sessions {x : Build α} {post : α → Building → Prop}
    (hs : (building l R generation trail p base own).inv s) (hx : Comes sessions x s post) :
    Comes (building l R generation trail p base own) x s fun a t => post a t ∧ sessions.le s t := by
  refine ⟨fun a t ht => ?_, fun e t ht => Library.fair_of_plain (hx.error e t ht)⟩
  obtain ⟨-, hle, hpost⟩ := hx.ok a t ht
  have hle' := hle
  obtain ⟨⟨session, rfl⟩, hids⟩ := hle
  obtain ⟨hgrown, hnone⟩ := Grown.of_same (s := s.store) (t := { s.store with session }) rfl hids fun _ => rfl
  exact ⟨setting_move p own hs hgrown hnone, ⟨hgrown, rfl⟩, hpost, hle'⟩

/-! ### Imports -/

theorem eraseDups_concat (xs : List Location) (x : Location) :
    (xs ++ [x]).eraseDups = if x ∈ xs then xs.eraseDups else xs.eraseDups ++ [x] := by
  rw [List.eraseDups_append]
  by_cases hx : x ∈ xs
  · simp [List.removeAll, hx]
  · simp [List.removeAll, hx, List.eraseDups_cons]

/-- What the imports made so far have led to. -/
structure Imported (l : Library) (p : Location) (decls : List ImportDecl) (found : List (Option Contents))
    (imports : List Location) (s : Building) : Prop where
  located : List.Forall₂ (fun decl q => l.locateFrom p decl.registry = .ok q) decls imports
  current : ∀ q ∈ imports, s.store.Current q
  dependencies : s.dependencies = imports.eraseDups
  contents : found.filterMap id = imports.eraseDups.map fun q => (s.store.registry q).contents

section Imported
variable {decls : List ImportDecl} {decl : ImportDecl} {found : List (Option Contents)} {imports : List Location}
  {q : Location} {t : Building}

/-- What was imported is still there when other registries have been loaded. -/
theorem Imported.contents_of_grown (h : Imported l p decls found imports s) (hle : Grown s.store t.store) :
    found.filterMap id = imports.eraseDups.map fun q => (t.store.registry q).contents := by
  rw [h.contents]
  exact List.map_congr_left fun q hq =>
    congrArg Registry.contents (hle.same q (h.current q (List.mem_eraseDups.mp hq))).symm

/-- An import of a registry that was taken before leads to nothing new. -/
theorem Imported.again (h : Imported l p decls found imports s) (hlocated : l.locateFrom p decl.registry = .ok q)
    (hmem : q ∈ imports) (hle : Grown s.store t.store) (hdependencies : t.dependencies = s.dependencies) :
    Imported l p (decls ++ [decl]) (found ++ [none]) (imports ++ [q]) t where
  located := List.rel_append h.located (.cons hlocated .nil)
  current := by
    refine List.forall_mem_append.mpr ⟨fun q' hq' => hle.current (h.current q' hq'), fun q' hq' => ?_⟩
    rw [List.mem_singleton.mp hq']
    exact hle.current (h.current q hmem)
  dependencies := by
    rw [hdependencies, eraseDups_concat, if_pos hmem]
    exact h.dependencies
  contents := by
    rw [List.filterMap_append, eraseDups_concat, if_pos hmem, h.contents_of_grown hle]
    exact List.append_nil _

/-- An import of another registry leads to what this registry holds now that it is loaded. -/
theorem Imported.new (h : Imported l p decls found imports s) (hlocated : l.locateFrom p decl.registry = .ok q)
    (hnew : q ∉ imports) (hle : Grown s.store t.store) (hcurrent : t.store.Current q)
    (hdependencies : t.dependencies = s.dependencies ++ [q]) :
    Imported l p (decls ++ [decl]) (found ++ [some (t.store.registry q).contents]) (imports ++ [q]) t where
  located := List.rel_append h.located (.cons hlocated .nil)
  current := by
    refine List.forall_mem_append.mpr ⟨fun q' hq' => hle.current (h.current q' hq'), fun q' hq' => ?_⟩
    rw [List.mem_singleton.mp hq']
    exact hcurrent
  dependencies := by rw [hdependencies, eraseDups_concat, if_neg hnew, h.dependencies]
  contents := by
    rw [List.filterMap_append, eraseDups_concat, if_neg hnew, h.contents_of_grown hle, List.map_append]
    rfl

/-- The bits of a registry are its own, or those of a registry that it imports. -/
theorem Imported.members (h : Imported l p d.imports found imports s) (hdocument : l.document p = .ok d)
    (own : Collection Bit) : ∀ b ∈ (own.absorbed (imports.eraseDups.map (s.store.items .bits))).items,
      b ∈ own.items ∨ ∃ q, l.Imports p q ∧ s.store.Current q ∧ b ∈ s.store.items .bits q := by
  refine fun b hb => (Collection.mem_of_mem_absorbed hb).imp_right fun ⟨items, hitems, hb⟩ => ?_
  obtain ⟨q, hq, rfl⟩ := List.mem_map.mp hitems
  have hq := List.mem_eraseDups.mp hq
  exact ⟨q, (mem_imports_of_located hdocument h.located).mp hq, h.current q hq, hb⟩

end Imported

/-- Each import is loaded, and taken once. -/
theorem imports_comes (hdocument : l.document p = .ok d) {decls : List ImportDecl} (hdecls : decls ⊆ d.imports)
    (hleads : ∀ q, l.Requests p q → R p q) (hfetch : Fetches l R generation trail p fetch)
    (htrail : Trail R id trail) (hlast : trail.getLast? = some p)
    (hs : (building l R generation trail p base own).inv s) (hempty : s.dependencies = []) :
    Comes (building l R generation trail p base own) (decls.mapM (importContents l fetch trail p)) s fun found t =>
      ∃ imports, Imported l p decls found imports t := by
  apply Comes.mapM_steps hs
  · exact ⟨[], .nil, fun _ h => (by cases h), hempty, rfl⟩
  · rintro done decl found t hdecl ht - ⟨imports, h⟩
    refine (ofOutcome_comes ht fun e he => Library.fair_of_plain (l.locateFrom_fails _ _ e he)).bind
      fun q u hu _ hq => ?_
    obtain ⟨hq, rfl⟩ := hq
    have himports : l.Imports p q := ⟨d, decl, hdocument, hdecls hdecl, hq⟩
    refine .get_bind ?_
    by_cases hmem : q ∈ imports
    · have hcontains : u.dependencies.contains q = true := by
        rw [h.dependencies, List.contains_iff_mem, List.mem_eraseDups]
        exact hmem
      simp only [hcontains]
      have hwarn := (Press.Orderly.warn (duplicateImport p decl.registry)).comes u.store.session
      refine (building_of_sessions hu (sessions_press hwarn)).bind fun _ v hv hle hsession => .pure hv ?_
      obtain ⟨-, ⟨session, rfl⟩, -⟩ := hsession
      exact ⟨imports ++ [q], h.again hq hmem hle.1 rfl⟩
    · have hnew : q ∉ u.dependencies := by rwa [h.dependencies, List.mem_eraseDups]
      have hcontains : u.dependencies.contains q = false :=
        Bool.eq_false_iff.mpr fun h => hnew (List.contains_iff_mem.mp h)
      simp only [hcontains]
      refine (depend_comes hfetch htrail hlast hu (hleads q (.import himports)) himports.canonical).bind fun c v hv hle hc => ?_
      obtain ⟨hcurrent, rfl, hdependencies⟩ := hc
      rw [if_neg hnew] at hdependencies
      exact .pure hv ⟨imports ++ [q], h.new hq hmem hle.1 hcurrent hdependencies⟩

/-! ### Queries -/

section Queries
variable {bits : Collection Bit} {constants : Collection Constant}

theorem walking_of_building (hs : (building l R generation trail p base own).inv s) (hempty : s.trail = []) :
    ((setting l R generation trail p base own).walking (resolver l fetch trail p bits constants) []).inv s :=
  ⟨hs, hempty, fun _ h => (by cases h), .nil⟩

namespace Draft

variable (h : Draft l R generation fetch trail p d base own bits)

include h

/-- Away from presets, a step that can be taken on a walk through them can be taken in the build. -/
theorem building_of_walking {x : Build α} {post : α → Building → Prop}
    (hx : Comes ((setting l R generation trail p base own).walking (resolver l fetch trail p bits constants) []) x s post) :
    Comes (building l R generation trail p base own) x s post := by
  refine ⟨fun a t ht => ?_, fun e t ht => ?_⟩
  · obtain ⟨hinv, hle, hpost⟩ := hx.ok a t ht
    exact ⟨hinv.1, hle, hpost⟩
  · rcases hx.error e t ht with he | ⟨g, hg, hblameless, picks, hpicks, hroot⟩
    · exact he
    · have hcircle := h.circle hg hpicks
      rcases hroot with hroot | hroot
      all_goals
        refine Library.fair_of_reference hblameless hroot (fun _ h => by cases h) fun chain hchain => ?_
        rcases hchain with hchain | hchain <;> cases hchain
        exact hcircle

theorem bears_runs :
    (setting l R generation trail p base own).Bears (resolver l fetch trail p bits constants) (l.Runs p) :=
  h.bears (Library.allows_runs h.leads)

/-- The defaults of a declared bit can be resolved. -/
theorem defaults_comes (hs : (building l R generation trail p base own).inv s) (hempty : s.trail = []) {b : Bit}
    (hb : b ∈ own) :
    Comes.Safe (building l R generation trail p base own)
      ((resolver l fetch trail p bits constants).ofChoice (l.extent.presets + 1) b .defaults) s := by
  refine h.building_of_walking (Resolver.ofChoice_comes (k := (b, .defaults)) h.bears_runs (Nat.lt_succ_self _)
    (walking_of_building hs hempty)
    (h.own_pairs hb (List.mem_cons_self ..)) (fun _ hk => by cases hk) fun t ht => ?_)
  rw [List.mem_singleton.mp ht]
  exact .defaults (h.declares hb)

/-- A map of queries that the build may run can be run. -/
theorem run_comes {t : Table Tree} (ht : l.Runs p t) (compose : Table Tree) {u : Building}
    (hu : ((setting l R generation trail p base own).walking (resolver l fetch trail p bits constants) []).inv u) :
    Comes.Safe ((setting l R generation trail p base own).walking (resolver l fetch trail p bits constants) [])
      ((resolver l fetch trail p bits constants).run (resolver l fetch trail p bits constants).overlay t compose) u :=
  Resolver.run_comes h.bears_runs (Nat.lt_succ_self _) t compose ht hu

/-! ### Targets -/

/-- The declarations of targets come from the files. -/
theorem supply : Inheritance.Supply (targetSource (resolver l fetch trail p bits constants) d) l.catalogue
    (building l R generation trail p base own) (l.HasBase p) l.keys where
  plain e he := Library.fair_of_plain he
  cycle chain := Library.fair_of_reference rfl rfl (fun _ h => by cases h) fun _ h => h.elim nofun nofun
  missing target base file := Library.fair_of_reference rfl rfl (fun _ h => by cases h) fun _ h => h.elim nofun nofun
  declaration s k hs hk := by
    have hcanonical := hk.canonical h.canonical
    show Comes _ (if k.file = p then _ else _) s _
    split
    · rename_i hfile
      refine .pure hs ?_
      show Except.ok ((l.document k.file.plain).toOption.bind (·.target? k.name)) = _
      rw [hcanonical.plain_eq, hfile, h.document]
      rfl
    · rename_i hfile
      refine (depend_comes h.fetches h.walk h.last hs (h.leads _ (.base hk rfl hfile)) hcanonical).bind fun c t ht _ hc => .pure ht ?_
      obtain ⟨hcurrent, rfl, -⟩ := hc
      obtain ⟨d', _, hbuilt⟩ := ht.1.2.1.built _ hcurrent
      show Except.ok ((l.document k.file.plain).toOption.bind (·.target? k.name)) = _
      rw [hcanonical.plain_eq, hbuilt.document]
      exact congrArg (fun o : Option RegistryDocument => Except.ok (o.bind fun d => d.target? k.name)) hbuilt.kept.symm
  locate s file reference hs hfile := by
    refine (ofOutcome_comes hs fun e he => Library.fair_of_plain (l.locateFrom_fails _ _ e he)).imp fun q _ _ _ hq => ?_
    show l.locateFrom file.plain reference = _
    rw [hfile.plain_eq]
    exact hq.1
  warn s ws hs := by
    obtain ⟨hgrown, hnone⟩ := Grown.of_same (s := s.store) (t := { s.store with session :=
      { s.store.session with warnings := s.store.session.warnings ++ ws } }) rfl (Nat.le_refl _) fun _ => rfl
    exact ⟨setting_move p own hs hgrown hnone, hgrown, rfl⟩
  canonical k hk := hk.canonical h.canonical
  below k k' hk hnames := hk.names hnames
  within k d' hk hd := Library.mem_keys (hk.canonical h.canonical) hd

/-- The spec of a declared target, and a memo to go on with. -/
theorem specOf_comes {decl : TargetDecl} (hdecl : decl ∈ d.targets) {memo : Inheritance.Memo}
    (hmemo : Inheritance.Sound l.catalogue memo) (hs : (building l R generation trail p base own).inv s) :
    Comes (building l R generation trail p base own)
      (specOf (resolver l fetch trail p bits constants) l.extent.targets d memo decl) s fun out _ =>
        l.catalogue.Specifies p decl out.1 ∧ Inheritance.Sound l.catalogue out.2 := by
  have hasks : Inheritance.Asks l.catalogue (l.HasBase p) p decl := fun r hr k hk =>
    ⟨d, decl, r, k, h.document, hdecl, hr, hk, .refl⟩
  have hspec : Comes (Inheritance.tracing (building l R generation trail p base own) l.catalogue [])
      (Inheritance.specOf (targetSource (resolver l fetch trail p bits constants) d) (l.extent.targets + 1) p decl).whole
      ({ memo }, s) fun spec _ => l.catalogue.Specifies p decl spec :=
    Inheritance.specOf_comes h.supply h.canonical hasks (Library.keyed h.canonical h.document hdecl)
      (by rw [l.length_keys]; exact Nat.lt_succ_self _) ⟨rfl, hmemo, hs⟩
  rcases hrun : (Inheritance.specOf (targetSource (resolver l fetch trail p bits constants) d) (l.extent.targets + 1) p
    decl).at { memo } s with ⟨⟨result, v⟩, t⟩
  have hwhole : effect (Inheritance.specOf (targetSource (resolver l fetch trail p bits constants) d)
      (l.extent.targets + 1) p decl).whole ({ memo }, s) = (result, v, t) := by
    rw [Inheritance.Step.effect_whole, hrun]
  have heffect : effect (specOf (resolver l fetch trail p bits constants) l.extent.targets d memo decl) s =
      (result.map fun spec => (spec, v.memo), t) := effect_specOf hrun
  cases result with
  | error e =>
    refine .of_effect heffect (fun out hout => by cases hout) fun e' he' => ?_
    cases he'
    exact hspec.error e _ hwhole
  | ok spec =>
    obtain ⟨hinv, hle, hspecifies⟩ := hspec.ok spec _ hwhole
    refine .of_effect heffect (fun out hout => ?_) fun e he => by cases he
    cases hout
    exact ⟨hinv.2.2, hle, hspecifies, hinv.2.1⟩

/-- A declared target can be resolved, gets an identity of its own and goes where it is meant to. -/
theorem targetOf_comes {decl : TargetDecl} (hdecl : decl ∈ d.targets) {spec : TargetSpec}
    (hspec : l.catalogue.Specifies p decl spec) (hs : (building l R generation trail p base own).inv s)
    (hempty : s.trail = []) :
    Comes (building l R generation trail p base own) (targetOf (resolver l fetch trail p bits constants) d decl spec) s
      fun target t => Element.Given s.store.session.identities t.store.session.identities target ∧
        l.Destined p decl target := by
  refine (h.building_of_walking (Resolver.variablesOf_comes (walking_of_building hs hempty) fun u hu _ =>
    h.run_comes (.context h.document hdecl hspec) [] hu)).bind fun static t ht hle _ => ?_
  refine (h.building_of_walking (h.run_comes (.queries h.document hdecl hspec) spec.compose
    (walking_of_building ht (hle.2.trans hempty)))).bind fun found u hu hle' _ => ?_
  dsimp only
  split
  · refine (ofOutcome_comes hu fun e he => Library.fair_of_plain (Target.destination_fails _ _ _ e he)).bind
      fun dest v hv hle'' hdest => ?_
    obtain ⟨hdest, rfl⟩ := hdest
    have hcreate := sessions_press (ElementInfo.create_given decl.name (decl.tags ++ d.tags) [] v.store.session)
    refine (building_of_sessions hv hcreate).bind fun info z hz _ hinfo => .pure hz ?_
    obtain ⟨⟨⟨k, hk, hlt, hid⟩, -⟩, -⟩ := hinfo
    exact ⟨⟨k, Nat.le_trans (hle.1.trans hle'.1).identities hk, hlt, hid⟩, spec, hspec, hdest⟩
  · exact .throw (Library.fair_of_plain trivial)

/-- The declared targets can be resolved, whatever the mode asks for. -/
theorem targetsFor_comes (mode : LoadMode) (hs : (building l R generation trail p base own).inv s)
    (hempty : s.trail = []) :
    Comes (building l R generation trail p base own)
      (targetsFor (resolver l fetch trail p bits constants) l.extent.targets mode d) s fun targets _ =>
        mode = .full → List.Forall₂ (l.Destined p) d.targets targets.items := by
  have hone : ∀ decl ∈ d.targets, ∀ memo, Inheritance.Sound l.catalogue memo → ∀ context t,
      (building l R generation trail p base own).inv t → t.trail = [] →
      Comes (building l R generation trail p base own) (Build.within context do
        let next ← specOf (resolver l fetch trail p bits constants) l.extent.targets d memo decl
        return (← targetOf (resolver l fetch trail p bits constants) d decl next.1, next.2)) t fun out u =>
          Inheritance.Sound l.catalogue out.2 ∧
            Element.Given t.store.session.identities u.store.session.identities out.1 ∧ l.Destined p decl out.1 := by
    intro decl hdecl memo hmemo context t ht hempty
    refine Comes.rethrow ?_ fun e he => he.within context
    refine (h.specOf_comes hdecl hmemo ht).bind fun next u hu hle hnext => ?_
    refine (h.targetOf_comes hdecl hnext.1 hu (hle.2.trans hempty)).bind fun target v hv _ htarget => ?_
    exact .pure hv ⟨hnext.2, htarget.1.mono hle.1.identities (Nat.le_refl _), htarget.2⟩
  cases mode with
  | dependency => exact .pure hs nofun
  | full =>
    refine Comes.bind (?_ : Comes (building l R generation trail p base own) _ s fun out t =>
      Inheritance.Sound l.catalogue out.2 ∧ (∀ target ∈ out.1.items, Element.Given 0 t.store.session.identities target) ∧
        List.Forall₂ (l.Destined p) d.targets out.1.items) fun _ _ hu _ hout => .pure hu fun _ => hout.2.2
    generalize d.targets = decls at hone ⊢
    apply Comes.foldlM_steps hs
    · exact ⟨fun _ h => (by cases h), (fun _ h => by cases h), .nil⟩
    intro done decl out t hdecl ht hle hout
    refine (hone decl hdecl out.2 hout.1 _ t ht (hle.2.trans hempty)).bind fun next u hu hle' hnext => ?_
    have hpush : out.1.push next.1 = .ok ⟨out.1.items ++ [next.1]⟩ := by
      refine Collection.push_of_new fun hid => ?_
      obtain ⟨other, hother, hsame⟩ := List.mem_map.mp hid
      exact (hout.2.1 other hother).ne hnext.2.1 hsame
    dsimp only
    rw [hpush]
    refine .pure hu ⟨hnext.1, fun target htarget => ?_, List.rel_append hout.2.2 (.cons hnext.2.2 .nil)⟩
    rcases List.mem_append.mp htarget with htarget | htarget
    · exact (hout.2.1 target htarget).mono (Nat.le_refl _) hle'.1.identities
    · rw [List.mem_singleton.mp htarget]
      exact hnext.2.1.mono (Nat.zero_le _) (Nat.le_refl _)

end Draft

end Queries

/-! ### What a build gathers -/

/-- What a registry has when it comes to its queries: its document, what it declares itself, and what its imports
hold. -/
structure Gathered where
  document : RegistryDocument
  ownBits : Collection Bit
  ownConstants : Collection Constant
  imported : List Contents

namespace Gathered

def bits (g : Gathered) : Collection Bit := g.imported.foldl (fun c i => c.absorb i.bits.items) g.ownBits

def constants (g : Gathered) : Collection Constant :=
  g.imported.foldl (fun c i => c.absorb i.constants.items) g.ownConstants

/-- What its queries are resolved against. -/
def resolver (g : Gathered) (l : Library) (fetch : Location → StoreM Unit) (trail : List Location) (p : Location) :
    Resolver :=
  Load.resolver l fetch trail p g.bits g.constants

end Gathered

/-- The build of a registry up to its queries. -/
def gather (l : Library) (fetch : Location → StoreM Unit) (trail : List Location) (p : Location) : Build Gathered := do
  let d ← Build.ofOutcome (l.document p)
  let ownBits ← elementsOf (Bit.ofDecl · d.tags) d.bits
  let ownConstants ← elementsOf (Constant.ofDecl · d.tags) d.constants
  let found ← d.imports.mapM (importContents l fetch trail p)
  return ⟨d, ownBits, ownConstants, found.filterMap id⟩

/-- The rest of the build: the defaults of its own bits, and its targets. -/
def complete (l : Library) (fetch : Location → StoreM Unit) (mode : LoadMode) (trail : List Location) (p : Location)
    (g : Gathered) : Build Contents := do
  let r := g.resolver l fetch trail p
  let _ ← g.ownBits.items.mapM fun b => r.ofChoice (l.extent.presets + 1) b .defaults
  let ownTargets ← targetsFor r l.extent.targets mode g.document
  let targets := g.imported.foldl (fun c i => c.absorb i.targets.items) ownTargets
  return ⟨g.document, g.bits, g.constants, targets, (← getThe Building).dependencies⟩

theorem build_eq (l : Library) (fetch : Location → StoreM Unit) (mode : LoadMode) (trail : List Location) (p : Location) :
    build l l.extent fetch mode trail p = gather l fetch trail p >>= complete l fetch mode trail p := by
  unfold build gather
  simp only [bind_assoc, pure_bind]
  rfl

/-- What is gathered from a store on: its own elements are made before anything else is loaded. -/
structure Gathers (l : Library) (p : Location) (s : Store) (g : Gathered) (b : Building) (n : Nat) (session : Session)
    (found : List (Option Contents)) (imports : List Location) : Prop where
  document : l.document p = .ok g.document
  ownBits : Made .bits g.document s.session.identities n g.document.bits g.ownBits
  ownConstants : Made .constants g.document n session.identities g.document.constants g.ownConstants
  early : s.session.identities ≤ n
  late : n ≤ session.identities
  grown : Grown { s with session } b.store
  imported : Imported l p g.document.imports found imports b
  contents : g.imported = found.filterMap id

namespace Gathers

variable {g : Gathered} {b : Building} {n : Nat} {session : Session} {found : List (Option Contents)}
  {imports : List Location} {s : Store} (h : Gathers l p s g b n session found imports)

include h

theorem bits_eq : g.bits = g.ownBits.absorbed (imports.eraseDups.map (b.store.items .bits)) := by
  rw [Gathered.bits, h.contents, h.imported.contents, Collection.foldl_absorb fun i : Contents => i.bits.items, List.map_map]
  rfl

theorem constants_eq : g.constants = g.ownConstants.absorbed (imports.eraseDups.map (b.store.items .constants)) := by
  rw [Gathered.constants, h.contents, h.imported.contents, Collection.foldl_absorb fun i : Contents => i.constants.items,
    List.map_map]
  rfl

/-- The registry has come to its queries. -/
theorem draft (hp : p.Canonical) (hstanding : b.store.Standing l) (hleads : ∀ q, l.Requests p q → R p q)
    (hfetch : Fetches l R generation trail p fetch) (htrail : Trail R id trail) (hlast : trail.getLast? = some p) :
    Draft l R generation fetch trail p g.document b.store g.ownBits.items g.bits where
  canonical := hp
  document := h.document
  made := h.ownBits.made
  standing := hstanding
  members := by
    rw [h.bits_eq]
    exact h.imported.members h.document g.ownBits
  leads := hleads
  fetches := hfetch
  walk := htrail
  last := hlast

end Gathers

/-- A registry comes to its queries if what it leads to can be loaded. -/
theorem gather_comes (hleads : ∀ q, l.Requests p q → R p q)
    (hfetch : ∀ d, l.document p = .ok d → Fetches l R generation trail p fetch) (htrail : Trail R id trail)
    (hlast : trail.getLast? = some p) {s : Store} (hs : (loading l R generation trail).inv s) :
    Comes (building l R generation trail p s []) (gather l fetch trail p) { store := s } fun g b =>
      ∃ n session found imports, Gathers l p s g b n session found imports := by
  refine (ofOutcome_comes ⟨hs, .refl s, fun _ h => by cases h⟩ fun e he =>
    Library.fair_of_plain (l.document_fails p e he)).bind fun d b₁ h₁ _ hd => ?_
  obtain ⟨hdocument, rfl⟩ := hd
  -- The registry's own elements, made before anything else is loaded.
  refine (building_of_sessions h₁ (elementsOf_comes Kind.bits_fresh d d.bits _)).bind fun ownBits b₂ h₂ _ hbits => ?_
  obtain ⟨hbits, ⟨session₂, rfl⟩, hids₂⟩ := hbits
  refine (building_of_sessions h₂ (elementsOf_comes Kind.constants_fresh d d.constants _)).bind
    fun ownConstants b₃ h₃ _ hconstants => ?_
  obtain ⟨hconstants, ⟨session₃, rfl⟩, hids₃⟩ := hconstants
  dsimp only at hbits hconstants hids₂ hids₃
  obtain ⟨hfirst, _⟩ := Grown.of_same (s := s) (t := { s with session := session₃ }) rfl
    (Nat.le_trans hids₂ hids₃) fun _ => rfl
  -- The imports.
  refine (building_rebase hfirst (imports_comes hdocument (List.Subset.refl _) hleads (hfetch d hdocument) htrail hlast
    ⟨h₃.1, .refl _, fun _ h => by cases h⟩ rfl : Comes (building l R generation trail p _ []) _ _ _)).bind
    fun found b₄ h₄ hle₄ himported => ?_
  obtain ⟨imports, himported⟩ := himported
  exact .pure h₄ ⟨_, session₃, found, imports, hdocument, hbits, hconstants, hids₂, hids₃, hle₄.1, himported, rfl⟩

/-! ### The whole build -/

section Kinds
variable {δ : Type} [Element α] {K : Kind α δ} {c : Contents} {elements : Collection α} {s₀ s₁ t : Store}
  {imports : List Location}

/-- What a registry declares itself comes first. -/
theorem own_of_absorbed {lists : List (List α)} (hdocument : c.document = some d)
    (hmade : List.Forall₂ (K.Makes d) (K.declared d) elements.items) (hpart : K.part c = elements.absorbed lists) :
    K.own c = elements.items := by
  obtain ⟨rest, hrest⟩ : elements.items <+: (elements.absorbed lists).items := Collection.prefix_absorbed
  unfold Kind.own
  rw [hdocument, hpart, ← hrest]
  exact List.take_left' hmade.length_eq.symm

theorem holds_of_made {since now : Nat} (hmade : Made K d since now (K.declared d) elements)
    (hnow : now ≤ t.session.identities) (hdocument : c.document = some d)
    (hpart : K.part c = elements.absorbed (imports.eraseDups.map (t.items K))) : Holds K t c d imports := by
  have hown := own_of_absorbed hdocument hmade.made hpart
  refine ⟨by rw [hown]; exact hmade.made, by rw [hown]; exact hmade.distinct, fun a ha => ?_, by rw [hown]; exact hpart⟩
  rw [hown] at ha
  exact (hmade.given a ha).mono (Nat.zero_le _) hnow

variable (K) in
/-- What contents declare is new to a store, and not among what the current registries declare. -/
def Novel (s t : Store) (c : Contents) : Prop :=
  ∀ a ∈ K.own c, (∃ n, Element.Given s.session.identities n a) ∧
    ∀ q, t.Current q → ∀ b ∈ t.own K q, Element.id a ≠ Element.id b

/-- Elements are new that were made before any other registry was loaded. -/
theorem novel_of_given {own : List α} (hs : Shared K l s₀) (hnone : ∀ q, s₁.Current q → s₀.Current q)
    (hfirst : Grown s₀ s₁) (hrest : Grown s₁ t) (hlater : Later K s₁ t) (hown : K.own c = own)
    (hgiven : ∀ a ∈ own, Element.Given s₀.session.identities s₁.session.identities a) : Novel K s₀ t c := by
  subst hown
  refine fun a ha => ⟨⟨_, hgiven a ha⟩, fun q hq b hb => ?_⟩
  by_cases hbefore : s₁.Current q
  · obtain ⟨_, _, _, _, hholds⟩ := hs.holds q (hnone q hbefore)
    rw [hrest.own_eq hbefore, hfirst.own_eq (hnone q hbefore)] at hb
    exact ((hholds.given b hb).ne (hgiven a ha)).symm
  · obtain ⟨n, hb⟩ := hlater q hq hbefore b hb
    exact (hgiven a ha).ne hb

end Kinds

/-- A build that began with one store and ended with another has made contents of its own. -/
structure Finished (l : Library) (s t : Store) (p : Location) (c : Contents) : Prop where
  built : ∃ d imports, Built l t p c d imports
  bits : Novel .bits s t c
  constants : Novel .constants s t c

/-- The contents that a build ends with: the imports have not changed since they were gathered. -/
theorem Finished.of_gathers {s t : Store} {g : Gathered} {b : Building} {n : Nat} {session : Session} {c : Contents}
    {imports : List Location} {found : List (Option Contents)} (hp : p.Canonical) (hs : s.Standing l)
    (hg : Gathers l p s g b n session found imports) (hstanding : b.store.Standing l) (ht : Grown b.store t)
    (hkept : c.document = some g.document) (hcbits : c.bits = g.bits) (hcconstants : c.constants = g.constants) :
    Finished l s t p c := by
  obtain ⟨hfirst, hnone⟩ := Grown.of_same (s := s) (t := { s with session }) rfl (Nat.le_trans hg.early hg.late)
    fun _ => rfl
  have hrest : Grown { s with session } t := hg.grown.trans ht
  have hnow : session.identities ≤ t.session.identities := hrest.identities
  have hitems : ∀ {α δ : Type} [Element α] (K : Kind α δ),
      imports.eraseDups.map (b.store.items K) = imports.eraseDups.map (t.items K) := fun K =>
    List.map_congr_left fun q hq => (ht.items_eq (hg.imported.current q (List.mem_eraseDups.mp hq))).symm
  have hgrounded : Acc (fun a b => l.Imports b a) p := by
    refine .intro p fun q hq => ?_
    have hcurrent := hg.imported.current q ((mem_imports_of_located hg.document hg.imported.located).mpr hq)
    obtain ⟨_, _, hbuilt⟩ := hstanding.built q hcurrent
    exact hbuilt.grounded
  have hbits := hcbits.trans hg.bits_eq
  have hconstants := hcconstants.trans hg.constants_eq
  refine ⟨⟨g.document, imports, hp, hg.document, hkept, hg.imported.located,
    fun q hq => ht.current (hg.imported.current q hq), hgrounded,
    holds_of_made hg.ownBits (hg.late.trans hnow) hkept (hbits.trans (by rw [hitems])),
    holds_of_made hg.ownConstants hnow hkept (hconstants.trans (by rw [hitems]))⟩, ?_, ?_⟩
  · exact novel_of_given hs.bits_shared hnone hfirst hrest hrest.bits (own_of_absorbed hkept hg.ownBits.made hbits)
      fun b hb => (hg.ownBits.given b hb).mono (Nat.le_refl _) hg.late
  · exact novel_of_given hs.constants_shared hnone hfirst hrest hrest.constants
      (own_of_absorbed hkept hg.ownConstants.made hconstants) fun a ha =>
        (hg.ownConstants.given a ha).mono hg.early (Nat.le_refl _)

/-- A registry can be built if what it leads to can be loaded. -/
theorem build_comes (hp : p.Canonical) (hleads : ∀ q, l.Requests p q → R p q)
    (hfetch : ∀ d, l.document p = .ok d → Fetches l R generation trail p fetch)
    (htrail : Trail R id trail) (hlast : trail.getLast? = some p) (mode : LoadMode) {s : Store}
    (hs : (loading l R generation trail).inv s) :
    Comes (building l R generation trail p s []) (build l l.extent fetch mode trail p) { store := s } fun c t =>
      Finished l s t.store p c ∧ (mode = .full → l.DestinedAll p c.targets.items) := by
  rw [build_eq]
  refine (gather_comes hleads hfetch htrail hlast hs).bind fun g b hb hle hg => ?_
  obtain ⟨n, session, found, imports, hg⟩ := hg
  have hdraft := hg.draft hp hb.1.2.1 hleads (hfetch _ hg.document) htrail hlast
  have hempty : b.trail = [] := hle.2
  -- The defaults of its own bits, and its targets.
  have hdefaults : Comes.Safe (building l R generation trail p b.store g.ownBits.items) (g.ownBits.items.mapM fun a =>
      (g.resolver l fetch trail p).ofChoice (l.extent.presets + 1) a .defaults) b :=
    .safe_mapM ⟨hb.1, .refl _, hb.2.2⟩ fun a t ha ht hle => hdraft.defaults_comes ht (hle.2.trans hempty) ha
  refine (building_rebase hb.2.1 hdefaults).bind fun _ b₅ h₅ hle₅ _ => ?_
  refine (building_rebase hb.2.1 (hdraft.targetsFor_comes mode ⟨h₅.1, hle₅.1, h₅.2.2⟩ (hle₅.2.trans hempty))).bind
    fun targets b₆ h₆ hle₆ htargets => ?_
  refine .get_bind (.pure h₆ ⟨?_, fun hmode => ?_⟩)
  · exact .of_gathers hp hs.2.1 hg hb.1.2.1 (hle₅.1.trans hle₆.1) rfl rfl rfl
  · have hfirst : targets.items <+: (targets.absorbed (g.imported.map fun i => i.targets.items)).items :=
      Collection.prefix_absorbed
    obtain ⟨rest, hrest⟩ := hfirst
    refine ⟨g.document, targets.items, rest, hg.document, ?_, htargets hmode⟩
    rw [hrest, Collection.foldl_absorb fun i : Contents => i.targets.items]

end Load

end Bitpress
