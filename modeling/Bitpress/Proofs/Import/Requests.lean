import Bitpress.Proofs.Files
import Bitpress.Proofs.Inheritance.Supply
import Bitpress.Proofs.Preset.Walk

/-!
What the build of a registry requests.

The build of a registry has another one loaded for three reasons: an import names
it, one of its targets has a base in it, directly or through further bases, or a
query that the build may run is about it (`Library.Requests`). Which queries these
are can be read off the files: those of the defaults of the declared bits and of
the targets, those inside them, and those of the presets that they select
(`Library.Runs`).
-/

namespace Bitpress

namespace Library

variable (l : Library)

/-- A registry imports another one. -/
def Imports (p q : Location) : Prop :=
  ∃ d decl, l.document p = .ok d ∧ decl ∈ d.imports ∧ l.locateFrom p decl.registry = .ok q

/-- A bit is made from one of the declarations in a file. -/
def Declares (p : Location) (b : Bit) : Prop :=
  ∃ d decl session, l.document p = .ok d ∧ decl ∈ d.bits ∧ (effect (Bit.ofDecl decl d.tags) session).1 = .ok b

/-- A bit is declared in a registry or in one that it imports, directly or not. -/
def Offers (p : Location) (b : Bit) : Prop := ∃ q, Relation.ReflTransGen l.Imports p q ∧ l.Declares q b

/-- The targets that the files declare. -/
def catalogue : Inheritance.Catalogue where
  declaration file name := .ok ((l.document file.plain).toOption.bind (·.target? name))
  locate file reference := l.locateFrom file.plain reference
  declaration_congr name h := by rw [Location.plain_congr h]
  locate_congr h hp := ⟨_, by rw [← Location.plain_congr h]; exact hp, rfl⟩

/-- The registry that a query of another one is about. -/
def Sought (p : Location) (q : QuerySpec) (source : Location) : Prop :=
  match q.registry with
  | none => source = p
  | some reference => l.locateFrom p reference = .ok source

/-- A query of a map may find a bit and pick one of its presets, when it is run for a registry. -/
def Finds (p : Location) (t : Table Tree) (k : Pick) : Prop :=
  ∃ name q source c, QuerySpec.Stands t name q ∧ QueryKind.forQuery name q.kind = .bits ∧ l.Sought p q source ∧
    (∀ b ∈ c.items, l.Offers source b) ∧
    (∃ session found, (effect (Query.matching c q) session).1 = .ok found ∧ k.1 ∈ found) ∧
    PresetChoice.choose k.1 q.preset = .ok k.2

/-- The maps of queries that the build of a registry may run. -/
inductive Runs (p : Location) : Table Tree → Prop
  | defaults {b : Bit} (declared : l.Declares p b) : Runs p b.defaults.queries
  | context {d : RegistryDocument} {decl : TargetDecl} {spec : TargetSpec} (document : l.document p = .ok d)
      (declared : decl ∈ d.targets) (specifies : l.catalogue.Specifies p decl spec) :
      Runs p (Legacy.queriesOf spec.context)
  | queries {d : RegistryDocument} {decl : TargetDecl} {spec : TargetSpec} (document : l.document p = .ok d)
      (declared : decl ∈ d.targets) (specifies : l.catalogue.Specifies p decl spec) : Runs p spec.queries
  | inside {t u : Table Tree} (outer : Runs p t) (inside : Inside t u) : Runs p u
  | preset {t u : Table Tree} {k : Pick} (outer : Runs p t) (finds : l.Finds p t k) (mem : u ∈ k.tables) : Runs p u

/-- A preset may select another one, when they are resolved for a registry: one of its queries, or one of the queries
inside them, may find it. -/
def Selects (p : Location) (k k' : Pick) : Prop :=
  ∃ t ∈ k.tables, ∃ u, Relation.ReflTransGen Inside t u ∧ l.Finds p u k'

/-- Presets that each select the next one, when they are resolved for some registry, from one of them back to it. -/
def Circle (chain : List PresetKey) : Prop :=
  ∃ p picks, ClosedWalk (l.Selects p) Pick.pair picks ∧ chain = picks.map Pick.key

/-- Queries of maps with `on` may be run in the build of a registry, if it may lead to the others that they name. -/
structure Allows (R : Location → Location → Prop) (p : Location) (on : Table Tree → Prop) : Prop where
  leads : ∀ {t name query reference q}, on t → QuerySpec.Stands t name query → query.registry = some reference →
    l.locateFrom p reference = .ok q → q ≠ p → R p q
  inside : ∀ {t u}, on t → Inside t u → on u
  found : ∀ {t u k}, on t → l.Finds p t k → u ∈ k.tables → on u

/-- The place that a target is meant for: the one in its merged spec, else the configured one, else the directory of
the registry. -/
def placeFor (p : Location) (spec : TargetSpec) : Location :=
  let directory := p.parent?.getD ⟨""⟩
  (Load.placeOf directory spec.dest l.config.defaults.dest).getD directory

/-- A target goes where its merged spec and its name say. -/
def Destined (p : Location) (decl : TargetDecl) (t : Target) : Prop :=
  ∃ spec, l.catalogue.Specifies p decl spec ∧
    Target.destination (l.placeFor p spec) p (decl.name.getD "target") = .ok t.dest

/-- The first targets are those that a registry declares, one for each declaration and in order, and they go where
they are meant to. -/
def DestinedAll (p : Location) (targets : List Target) : Prop :=
  ∃ d own rest, l.document p = .ok d ∧ targets = own ++ rest ∧ List.Forall₂ (l.Destined p) d.targets own

/-- A target of a registry has a base, directly or through further bases. -/
def HasBase (p : Location) (k : TargetKey) : Prop :=
  ∃ d decl reference base, l.document p = .ok d ∧ decl ∈ d.targets ∧ reference ∈ decl.bases ∧
    l.catalogue.keyOf p reference = .ok base ∧ Relation.ReflTransGen l.catalogue.Names base k

/-- The build of a registry requests the load of another one. -/
inductive Requests (p q : Location) : Prop
  | «import» (imports : l.Imports p q)
  | base {k : TargetKey} (needs : l.HasBase p k) (file : k.file = q) (ne : q ≠ p)
  | query {t : Table Tree} {name : String} {query : QuerySpec} {reference : String} (runs : l.Runs p t)
      (stands : QuerySpec.Stands t name query) (registry : query.registry = some reference)
      (located : l.locateFrom p reference = .ok q) (ne : q ≠ p)

variable {l : Library} {p q : Location}

/-- Those that it runs itself lead where its requests do. -/
theorem allows_runs {R : Location → Location → Prop} (hR : ∀ q, l.Requests p q → R p q) : l.Allows R p (l.Runs p) where
  leads ht hq hreference hlocated hne := hR _ (.query ht hq hreference hlocated hne)
  inside := .inside
  found := .preset

theorem allows_all (p : Location) : l.Allows (fun _ _ => True) p fun _ => True :=
  ⟨fun _ _ _ _ _ => trivial, fun _ _ => trivial, fun _ _ _ => trivial⟩

theorem Imports.canonical (h : l.Imports p q) : q.Canonical :=
  have ⟨_, _, _, _, hq⟩ := h
  locate_canonical hq

theorem imports_iff : l.Imports p q ↔ ((l.document p).toOption.any fun d =>
    d.imports.any fun decl => (l.locateFrom p decl.registry).toOption == some q) = true := by
  simp only [Imports, Option.any_eq_true, List.any_eq_true, beq_iff_eq, Outcome.toOption_eq_some]
  exact ⟨fun ⟨d, decl, hd, hdecl, hq⟩ => ⟨d, hd, decl, hdecl, hq⟩, fun ⟨d, hd, decl, hdecl, hq⟩ => ⟨d, decl, hd, hdecl, hq⟩⟩

instance : Decidable (l.Imports p q) := decidable_of_iff _ imports_iff.symm

theorem Offers.import {b : Bit} (h : l.Imports p q) (hb : l.Offers q b) : l.Offers p b :=
  have ⟨source, hsource, hdeclares⟩ := hb
  ⟨source, .head h hsource, hdeclares⟩

/-! ### The catalogue -/

/-- What tells the declared targets of all files apart. -/
def keys (l : Library) : List (List Location.Part × String) :=
  l.places.flatMap fun p => ((l.document p).toOption.map fun d => d.targets.map fun t => (p.parts, t.name.getD "")).getD []

theorem length_keys (l : Library) : l.keys.length = l.extent.targets := by
  show _ = total (fun d => d.targets.length) l.documents
  rw [keys, length_flatMap_eq, total_documents]
  refine congrArg (total · l.places) (funext fun p => ?_)
  cases (l.document p).toOption with
  | none => rfl
  | some d => exact List.length_map ..

theorem keyed {d : RegistryDocument} {decl : TargetDecl} (hp : p.Canonical) (hd : l.document p = .ok d)
    (hdecl : decl ∈ d.targets) : Inheritance.Keyed l.keys p decl := by
  intro name hname
  refine List.mem_flatMap.mpr ⟨p, mem_places hp hd, ?_⟩
  rw [hd]
  exact List.mem_map.mpr ⟨decl, hdecl, by rw [hname]; rfl⟩

theorem mem_keys {k : TargetKey} {decl : TargetDecl} (hk : k.file.Canonical)
    (h : l.catalogue.declaration k.file k.name = .ok (some decl)) : k.identity ∈ l.keys := by
  obtain ⟨d, hd, hfind⟩ := Option.bind_eq_some_iff.mp (Except.ok.inj h)
  rw [hk.plain_eq] at hd
  have hname := List.find?_some hfind
  have hdocument : l.document k.file = .ok d := Outcome.toOption_eq_some.mp hd
  exact keyed hk hdocument (List.mem_of_find?_eq_some hfind) k.name (by simpa using hname)

theorem keyOf_canonical {file : Location} {reference : String} {k : TargetKey} (hfile : file.Canonical)
    (h : l.catalogue.keyOf file reference = .ok k) : k.file.Canonical := by
  unfold Inheritance.Catalogue.keyOf at h
  split at h
  · obtain ⟨q, hq, hk⟩ := Outcome.bind_eq_ok.mp h
    cases hk
    exact locate_canonical hq
  · cases h
    exact hfile

theorem HasBase.canonical {k : TargetKey} (hp : p.Canonical) (h : l.HasBase p k) : k.file.Canonical := by
  obtain ⟨d, decl, reference, base, _, _, _, hbase, hpath⟩ := h
  induction hpath with
  | refl => exact keyOf_canonical hp hbase
  | tail _ hnames ih =>
    obtain ⟨_, _, _, _, hkey⟩ := hnames
    exact keyOf_canonical ih hkey

theorem HasBase.names {k k' : TargetKey} (h : l.HasBase p k) (hnames : l.catalogue.Names k k') : l.HasBase p k' :=
  have ⟨d, decl, reference, base, hd, hdecl, href, hbase, hpath⟩ := h
  ⟨d, decl, reference, base, hd, hdecl, href, hbase, .tail hpath hnames⟩

end Library

end Bitpress
