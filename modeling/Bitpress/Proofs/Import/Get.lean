import Bitpress.Proofs.Import.Load

/-!
What a request for a registry comes to.

A request ends, whatever the files request of one another, and no registry is
loaded twice in its course; so no load waits for itself. If the imports of the
registry lead to a cycle, the request fails. A chain that it reports is a closed
walk of registries that were being loaded, the build of each requesting the next
(`Store.Reachable.get_finds_cycles`).

An error is wrapped once more by every load that it ends. From the outside in, it
names the registry that was asked for and those that were being loaded, each
requested by the one before. These registries have failed, and no others; what it
is wrapped around is no wrapper (`Store.Reachable.get_error_names_loads`).

A registry has its own elements, in the order of their declarations, and then for
each import the elements that it does not have yet (`Store.Accumulates`). However
many paths lead to a registry, it is built once in the course of a request, so
that its elements come along all of them with the same identities and are taken
over once (`Store.Reachable.get_shares`).
-/

namespace Bitpress

/-! ### Cycles -/

namespace Load

open Store

variable {l : Library} {extent : Library.Extent} {trail : List Location} {s t : Store} {p : Location}
  {events : List LoadEvent}

theorem entered_heard (p : Location) (events : List LoadEvent) :
    entered (heard p events) = (entered events).filter (· == p) := by
  unfold entered heard
  rw [List.filter_filterMap, List.filterMap_filter]
  refine List.filterMap_congr fun e _ => ?_
  cases e with
  | loading q mode => simp [LoadEvent.path, LoadEvent.entered?, Option.filter]
  | failed q => simp [LoadEvent.entered?]

/-- Nothing is said about a registry whose load has not begun, and it begins once at most. -/
theorem Fate.entered_le {fails : Prop} (h : Fate l extent fails s t events p) : (entered (heard p events)).length ≤ 1 := by
  cases h with
  | untouched h => rw [h.silent]; exact Nat.zero_le 1
  | built _ _ _ said => rw [said]; exact Nat.le_refl 1
  | failed _ _ _ said => rw [said]; exact Nat.le_refl 1

/-- Each load begins once at most in the course of loads. -/
theorem entered_nodup {fails : Location → Prop} (h : ∀ p, Fate l extent (fails p) s t events p) : (entered events).Nodup := by
  refine List.nodup_iff_count_le_one.mpr fun p => ?_
  rw [List.count_eq_length_filter, ← entered_heard]
  exact (h p).entered_le

end Load

namespace Store

variable {s : Store}

/-- After a request, whatever came of it: no load has begun twice, room has not run out, imports that lead to a
cycle have made it fail, and a chain that it reports is a closed walk of registries that were being loaded. -/
theorem Reachable.get_finds_cycles (hs : s.Reachable) (l : Library) (p : Location) :
    (∃ events, ((Call.get l p).after s).trace = s.trace ++ events ∧ (Load.entered events).Nodup) ∧
    (∀ e t, effect (get l p) s = (.error e, t) → e.root ≠ .depthExceeded) ∧
    (∀ root q, l.locate p = .ok root → Relation.ReflTransGen l.Imports root q → Relation.TransGen l.Imports q q →
      ∃ e t, effect (get l p) s = (.error e, t)) ∧
    ∀ e t chain, effect (get l p) s = (.error e, t) → e.root = .reference (.importCycle chain) →
      ClosedWalk l.Requests id chain ∧ chain.dropLast <:+ e.loads := by
  have hcalm := hs.calm
  refine ⟨?_, fun e t h => (hcalm.get_error h).room, fun root q hroot hpath hcycle => ?_,
    fun e t chain h hchain => (hcalm.get_error h).closed chain hchain⟩
  · rcases hcalm.loads (.get l p) with hsame | ⟨blamed, events, hm, -, hfates⟩
    · rw [hsame]
      exact ⟨[], (List.append_nil _).symm, List.nodup_nil⟩
    · exact ⟨events, hm.trace, Load.entered_nodup fun p => (hfates p).1⟩
  · rcases h : effect (get l p) s with ⟨e | r, t⟩
    · exact ⟨e, t, rfl⟩
    · obtain ⟨root', hroot', -, hstanding, hcurrent⟩ := hcalm.get_ok h
      cases hroot.symm.trans hroot'
      exact absurd hcycle (hstanding.acyclic hcurrent hpath)

namespace Shelf

/-- Two registries that import each other. -/
def ring : Library := library "imports:\n- registry: b.yml\n" "imports:\n- registry: a.yml\n"

def ringChain : List Location := [a, b, a]

/-- The chain of imports that an outcome reports. -/
def importCycle? (r : Outcome Registry) : Option (List Location) :=
  match r with
  | .error e =>
    match e.root with
    | .reference (.importCycle chain) => some chain
    | _ => none
  | .ok _ => none

theorem root_of_importCycle? {e : Error} {chain : List Location} (h : importCycle? (.error e) = some chain) :
    e.root = .reference (.importCycle chain) := by
  dsimp only [importCycle?] at h
  split at h
  · rename_i hroot
    cases h
    exact hroot
  · cases h

end Shelf

/-- Two registries that import each other cannot be loaded: the error names the cycle, and each was loaded once. -/
theorem Reachable.get_finds_cycles_ring :
    Relation.TransGen Shelf.ring.Imports Shelf.a Shelf.a ∧
    ∃ e t, effect (get Shelf.ring Shelf.a) {} = (.error e, t) ∧ e.root = .reference (.importCycle Shelf.ringChain) ∧
      ClosedWalk Shelf.ring.Requests id Shelf.ringChain ∧ [Shelf.a, Shelf.b] <:+ e.loads ∧
      (Load.entered t.trace).Nodup := by
  obtain ⟨⟨events, htrace, hentered⟩, -, hfails, hclosed⟩ :=
    Reachable.get_finds_cycles (.start {}) Shelf.ring Shelf.a
  have hcycle : Relation.TransGen Shelf.ring.Imports Shelf.a Shelf.a :=
    .tail (.single (b := Shelf.b) (by decide +kernel)) (by decide +kernel)
  have hlocate : Shelf.ring.locate Shelf.a = .ok Shelf.a := Outcome.toOption_eq_some.mp (by decide +kernel)
  obtain ⟨e, t, h⟩ := hfails Shelf.a Shelf.a hlocate .refl hcycle
  have hchain : Shelf.importCycle? (effect (get Shelf.ring Shelf.a) {}).1 = some Shelf.ringChain := by decide +kernel
  rw [h] at hchain
  have hroot := Shelf.root_of_importCycle? hchain
  have hafter : (Call.get Shelf.ring Shelf.a).after {} = t := congrArg Prod.snd h
  rw [hafter] at htrace
  obtain ⟨hwalk, hloads⟩ := hclosed e t _ h hroot
  exact ⟨hcycle, e, t, h, hroot, hwalk, hloads, by rw [htrace]; exact hentered⟩

end Store

/-! ### The loads that an error names -/

namespace Load

open Store

variable {l : Library} {extent : Library.Extent} {trail : List Location} {s t : Store} {p : Location} {e : Error}

/-- A load with room for its registry puts it around the error that ends it. -/
theorem load_error {room : Nat} {mode : LoadMode}
    (h : effect (load l extent (room + 1) mode trail p) s = (.error e, t)) :
    ∃ source, e = .registryLoad p source := by
  rw [load_succ, effect_loadWith] at h
  split at h
  · cases h
  · rename_i source _ _
    cases h
    exact ⟨source, rfl⟩

/-- A registry that is not blamed shows the status that it had, or that it was loaded. -/
theorem Fate.status {events : List LoadEvent} {fails : Prop} (h : Fate l extent fails s t events p) (hp : ¬ fails) :
    (t.registry p).status = (s.registry p).status ∨ (t.registry p).status = .loaded := by
  cases h with
  | untouched h => exact .inl (congrArg Registry.status h.same)
  | built _ _ _ _ _ _ _ _ made => exact .inr (congrArg Registry.status made)
  | failed _ fault => exact absurd fault hp

end Load

namespace Store

variable {l : Library} {s t : Store} {p root : Location} {e : Error}

/-- What a request that fails has done to the store. -/
theorem Calm.get_error_loads (hs : s.Calm) (hroot : l.locate p = .ok root)
    (h : effect (get l p) s = (.error e, t)) :
    e.loads.head? = some root ∧ Load.Loads l l.extent [] e.loads s.renewed t := by
  have hbetween := hs.reload_between l root
  rcases get_eq_error h with hlocate | ⟨found, hlocate, hreload⟩
  · cases hroot.symm.trans hlocate
  · cases hroot.symm.trans hlocate
    rw [hreload] at hbetween
    obtain ⟨source, rfl⟩ := Load.load_error hreload
    exact ⟨rfl, hbetween rfl⟩

/-- The loads that the error of a request names, from the outside in: that of the registry that was asked for,
and those that were under way, each requested by the one before and begun in its course. Their registries have
failed, and no others. The innermost error is no wrapper, and it decides whether a broken reference is
reported. -/
theorem Reachable.get_error_names_loads (hs : s.Reachable) (hroot : l.locate p = .ok root)
    (h : effect (get l p) s = (.error e, t)) :
    e.loads.head? = some root ∧ e.loads.Nodup ∧ e.loads.IsChain l.Requests ∧
    (∃ events, t.trace = s.trace ++ events ∧ Load.Unwinds e.loads events) ∧
    (∀ q ∈ e.loads, (t.registry q).status = .failed) ∧
    (∀ q, q ∉ e.loads → (t.registry q).status = (s.registry q).status ∨ (t.registry q).status = .loaded) ∧
    ∃ cause, (e :: e.causes).getLast? = some cause ∧ cause.cause? = none ∧
      ∀ fault, e.reference? = some fault ↔ cause = .reference fault := by
  obtain ⟨hhead, events, hm, hunwinds, hfates⟩ := hs.calm.get_error_loads hroot h
  have htrail : Trail l.Requests id e.loads := by
    rcases (hs.calm.get_error h).walk with hblameless | htrail
    · rw [hblameless]
      exact .nil
    · exact htrail
  have hdistinct : e.loads.Nodup := by
    have := htrail.distinct
    rwa [List.map_id] at this
  refine ⟨hhead, hdistinct, htrail.leads, ⟨events, hm.trace, hunwinds⟩, fun q hq => ?_, fun q hq => ?_, ?_⟩
  · refine (hfates q).1.status_failed ?_
    rw [hunwinds.failures_eq]
    exact List.mem_reverse.mpr hq
  · exact (hfates q).1.status hq
  · exact ⟨e.root, e.getLast?_causes, e.cause?_root, fun _ => Error.reference?_eq_some⟩

namespace Shelf

/-- A registry that imports another one, whose document does not parse. -/
def torn : Library := library "imports:\n- registry: b.yml\n" "bits: 1\n"

/-- What an outcome says about failed loads and about a broken reference. -/
def blamed? (r : Outcome Registry) : Option (List Location × Bool) :=
  match r with
  | .error e => some (e.loads, e.reference?.isSome)
  | .ok _ => none

end Shelf

/-- The import that does not parse fails, and so does what imports it. -/
theorem Reachable.get_error_names_loads_torn :
    ∃ e t, effect (get Shelf.torn Shelf.a) {} = (.error e, t) ∧ e.loads = [Shelf.a, Shelf.b] ∧
      Shelf.torn.Requests Shelf.a Shelf.b ∧ (t.registry Shelf.a).status = .failed ∧
      (t.registry Shelf.b).status = .failed ∧ ∀ fault, e.root ≠ .reference fault := by
  have hlocate : Shelf.torn.locate Shelf.a = .ok Shelf.a := Outcome.toOption_eq_some.mp (by decide +kernel)
  have hblamed : Shelf.blamed? (effect (get Shelf.torn Shelf.a) {}).1 = some ([Shelf.a, Shelf.b], false) := by
    decide +kernel
  rcases h : effect (get Shelf.torn Shelf.a) {} with ⟨e | r, t⟩
  · rw [h] at hblamed
    obtain ⟨hloads, hreference⟩ := Prod.mk.inj (Option.some.inj hblamed)
    obtain ⟨-, -, hchain, -, hfailed, -, cause, hlast, -, hroot⟩ :=
      Reachable.get_error_names_loads (.start {}) hlocate h
    rw [hloads] at hchain hfailed
    cases hlast.symm.trans e.getLast?_causes
    refine ⟨e, t, rfl, hloads, List.isChain_pair.mp hchain, hfailed _ (by decide), hfailed _ (by decide),
      fun fault he => ?_⟩
    rw [(hroot fault).mpr he] at hreference
    cases hreference
  · rw [h] at hblamed
    cases hblamed

end Store

/-! ### Shared elements -/

namespace Store

section Kinds
variable {α δ : Type} [Element α] (K : Kind α δ)

/-- What a registry has of one kind of elements: its own, then those of its imports, each once. -/
structure Accumulates (l : Library) (s : Store) (p : Location) : Prop where
  distinct : ((s.items K p).map Element.id).Nodup
  order : ∃ d imports, l.document p = .ok d ∧ List.Forall₂ (K.Makes d) (K.declared d) (s.own K p) ∧
    List.Forall₂ (fun decl q => l.locateFrom p decl.registry = .ok q) d.imports imports ∧
    s.items K p = Collection.gather (s.own K p) (imports.eraseDups.map (s.items K))
  reached : ∀ a, a ∈ s.items K p ↔ ∃ q, Relation.ReflTransGen l.Imports p q ∧ a ∈ s.own K q

variable {K} {l : Library} {s : Store} {p : Location}

theorem Shared.accumulates (hK : Shared K l s) (hs : s.Standing l) (hp : s.Current p) : Accumulates K l s p where
  distinct := hK.items_nodup hp
  order := by
    obtain ⟨_, d, imports, hbuilt, hholds⟩ := hK.holds p hp
    refine ⟨d, imports, hbuilt.document, hholds.made, hbuilt.located, ?_⟩
    have hitems : s.items K p = (Collection.absorbed ⟨s.own K p⟩ (imports.eraseDups.map (s.items K))).items :=
      congrArg Collection.items hholds.absorbed
    refine hitems.trans (Collection.absorbed_items fun items hmem => ?_)
    obtain ⟨q, hq, rfl⟩ := List.mem_map.mp hmem
    exact hK.items_nodup (hbuilt.current q (List.mem_eraseDups.mp hq))
  reached a := by
    rw [hK.mem_items hp]
    exact ⟨fun ⟨q, hpath, _, ha⟩ => ⟨q, hpath, ha⟩, fun ⟨q, hpath, ha⟩ => ⟨q, hpath, hs.reaches hp hpath, ha⟩⟩

end Kinds

variable {s : Store}

/-- A request never fails because an element is there twice. If it succeeds, every registry that its own reaches
through imports was built just once in its course, and has its own elements with those of its imports. -/
theorem Reachable.get_shares (hs : s.Reachable) (l : Library) (p : Location) :
    (∀ e t label, effect (get l p) s = (.error e, t) → e.root ≠ .duplicateElement label) ∧
    ∀ r t, effect (get l p) s = (.ok r, t) → ∃ root events, l.locate p = .ok root ∧ r = t.registry root ∧
      t.trace = s.trace ++ events ∧ ∀ q, Relation.ReflTransGen l.Imports root q →
        Accumulates .bits l t q ∧ Accumulates .constants l t q ∧
        ∃ b : Load.CompleteBuild l l.extent q, Load.heard q events = [.loading q b.mode] ∧
          t.registry q = ⟨q, .loaded, t.generation, some b.mode, b.contents⟩ := by
  have hcalm := hs.calm
  refine ⟨fun e t label h => (hcalm.get_error h).distinct label, fun r t h => ?_⟩
  obtain ⟨root, hroot, rfl, hstanding, hcurrent⟩ := hcalm.get_ok h
  have hreload : (effect (reload l root) s).2 = t := by rw [← effect_get_of_ok hroot, h]
  obtain ⟨blamed, events, hm, -, hfates⟩ := hcalm.reload l root
  rw [hreload] at hm hfates
  refine ⟨root, events, hroot, rfl, hm.trace, fun q hpath => ?_⟩
  have hq : t.Current q := hstanding.reaches hcurrent hpath
  refine ⟨hstanding.bits_shared.accumulates hstanding hq, hstanding.constants_shared.accumulates hstanding hq, ?_⟩
  -- What is current now was not when the request began, so a build of the request has made it.
  cases (hfates q).1 with
  | untouched hu =>
    have hbefore : s.renewed.Current q := Current.congr hq hm.generation.symm hu.same.symm
    exact absurd ((hcalm.not_current q).symm.trans hbefore) Bool.false_ne_true
  | built b now _ said _ _ _ _ made => exact ⟨b, said, by rw [made, hm.generation]⟩
  | failed mode _ _ _ same =>
    have hstatus : (t.registry q).isCurrent t.generation = true := hq
    rw [same] at hstatus
    cases hstatus

namespace Diamond

/-- Two ways lead from one registry to another, and one of its imports is written twice. -/
def library : Library :=
  { files := .dir [
      ("top.yml", .file (.text
        "imports:\n- registry: left.yml\n- registry: right.yml\n- registry: ./left.yml\nbits:\n- name: t\n  src: T\n")),
      ("left.yml", .file (.text "imports:\n- registry: base.yml\nbits:\n- name: l\n  src: L\n")),
      ("right.yml", .file (.text "imports:\n- registry: base.yml\nbits:\n- name: r\n  src: R\n")),
      ("base.yml", .file (.text "bits:\n- name: b\n  src: B\n"))] }

def top : Location := ⟨"/top.yml"⟩

def left : Location := ⟨"/left.yml"⟩

def base : Location := ⟨"/base.yml"⟩

end Diamond

/-- What two imports share is taken over once, from one build. -/
theorem Reachable.get_shares_base :
    ∃ r t, effect (get Diamond.library Diamond.top) {} = (.ok r, t) ∧
      r.contents.bits.items.map (fun b => b.info.name) = [some "t", some "l", some "b", some "r"] ∧
      (r.contents.bits.items.map Element.id).Nodup ∧
      ∃ mode, Load.heard Diamond.base t.trace = [.loading Diamond.base mode] := by
  obtain ⟨-, hshares⟩ := Reachable.get_shares (.start {}) Diamond.library Diamond.top
  have hnames : (effect (get Diamond.library Diamond.top) {}).1.toOption.map (fun r =>
      r.contents.bits.items.map fun b => b.info.name) = some [some "t", some "l", some "b", some "r"] := by
    decide +kernel
  rcases h : effect (get Diamond.library Diamond.top) {} with ⟨e | r, t⟩
  · rw [h] at hnames
    cases hnames
  · rw [h] at hnames
    obtain ⟨root, events, hroot, hr, htrace, hall⟩ := hshares r t h
    have hlocate : Diamond.library.locate Diamond.top = .ok Diamond.top :=
      Outcome.toOption_eq_some.mp (by decide +kernel)
    cases hlocate.symm.trans hroot
    have hpath : Relation.ReflTransGen Diamond.library.Imports Diamond.top Diamond.base :=
      .tail (.single (b := Diamond.left) (by decide +kernel)) (by decide +kernel)
    obtain ⟨_, _, build, hheard, _⟩ := hall Diamond.base hpath
    refine ⟨r, t, rfl, Option.some.inj hnames, ?_, build.mode, ?_⟩
    · rw [hr]
      exact (hall Diamond.top .refl).1.distinct
    · rw [htrace]
      exact hheard

end Store

end Bitpress
