import Bitpress.Proofs.Fault
import Bitpress.Proofs.Inheritance.Memo
import Mathlib.Data.Finset.Card
import Mathlib.Data.List.Chain

/-!
Cycles of targets.

Over finitely many declared targets (`Catalogue.Within`), every step down puts
another one of them on the trail, so the trail runs out of targets before the
room runs out (`fold_ne_depthExceeded`). The trail is a walk through the graph
(`Walk`), so an error about a cycle shows one (`closed_of_fold`).
-/

namespace Bitpress

open Outcome

/-- An error that says nothing about cycles of targets, nor about room. -/
def Error.Other (e : Error) : Prop :=
  e ≠ .depthExceeded ∧ ∀ chain, e ≠ .reference (.targetCycle chain)

theorem Error.Plain.other {e : Error} (h : e.Plain) : e.Other :=
  ⟨fun he => by rw [he] at h; exact h, fun chain he => by rw [he] at h; exact h⟩

namespace Inheritance

/-- A cycle, or a lack of room, comes from one of the bases. -/
theorem exists_base_of_mergeAll {base : String → Outcome Resolved} {d : TargetDecl} {e : Error}
    (he : ¬ e.Other) (h : mergeAll base d = .error e) : ∃ r ∈ d.bases, base r = .error e := by
  rcases bind_eq_error.mp h with hfold | ⟨_, _, hown⟩
  · obtain ⟨r, hr, t, hstep⟩ := exists_error_of_foldlM hfold
    rcases bind_eq_error.mp hstep with hb | ⟨b, _, hmerge⟩
    · exact ⟨r, hr, hb⟩
    · exact absurd (mergeBase_fails _ _ e hmerge).other he
  · exact absurd (mergeOwn_fails _ _ e hown).other he

namespace Catalogue

/-- The errors of a catalogue itself are about other things. -/
structure Plain (c : Catalogue) : Prop where
  declaration : ∀ file name, Fails Error.Other (c.declaration file name)
  locate : ∀ file reference, Fails Error.Other (c.locate file reference)

/-- Every declared target is one of the keys. -/
def Within (c : Catalogue) (keys : Finset (List Location.Part × String)) : Prop :=
  ∀ (key : TargetKey) d, c.declaration key.file key.name = .ok (some d) → key.identity ∈ keys

variable {c : Catalogue} {keys : Finset (List Location.Part × String)} {room : Nat}
  {trail : List TargetKey} {file : Location} {d : TargetDecl} {reference : String}

theorem keyOf_fails (hc : c.Plain) (file : Location) (reference : String) :
    Fails Error.Other (c.keyOf file reference) := by
  unfold keyOf
  split
  · exact .bind (hc.locate _ _) fun _ => .ok _
  · exact .ok _

/-- A cycle, or a lack of room, at a base: the base is on the trail already, or what it declares has it,
with the base on the trail. -/
theorem base_error (hc : c.Plain) {e : Error} (he : ¬ e.Other)
    (h : c.baseWith enter (c.load enter room d) trail file reference = .error e) :
    ∃ key, c.keyOf file reference = .ok key ∧
      (enter trail key = .error e ∨
        enter trail key = .ok (trail ++ [key]) ∧
          c.load enter room d (trail ++ [key]) reference key = .error e) := by
  rcases bind_eq_error.mp h with hkey | ⟨key, hkey, h⟩
  · exact absurd (keyOf_fails hc _ _ e hkey) he
  · refine ⟨key, hkey, ?_⟩
    rcases bind_eq_error.mp h with henter | ⟨longer, henter, hload⟩
    · exact .inl henter
    · obtain ⟨_, rfl⟩ := enter_eq_ok_iff.mp henter
      exact .inr ⟨henter, hload⟩

theorem load_error (hc : c.Plain) {e : Error} (he : ¬ e.Other) {key : TargetKey}
    (h : c.load enter (room + 1) d trail reference key = .error e) :
    ∃ base, c.declaration key.file key.name = .ok (some base) ∧ c.fold room trail key.file base = .error e := by
  rcases bind_eq_error.mp h with hfound | ⟨found, hfound, h⟩
  · exact absurd (hc.declaration _ _ e hfound) he
  · cases found with
    | none =>
      cases h
      exact absurd ⟨by simp, by simp⟩ he
    | some base =>
      refine ⟨base, hfound, ?_⟩
      rcases bind_eq_error.mp h with hfold | ⟨_, _, h⟩
      · exact hfold
      · cases h

/-! ### Room for every target -/

/-- How many of the keys are not on the trail. -/
def left (keys : Finset (List Location.Part × String)) (trail : List TargetKey) : Nat :=
  (keys.filter fun k => k ∉ trail.map TargetKey.identity).card

theorem left_append {key : TargetKey} (hkey : key.identity ∈ keys)
    (hnew : ∀ k ∈ trail, k.identity ≠ key.identity) : left keys (trail ++ [key]) < left keys trail := by
  have hmem : key.identity ∉ trail.map TargetKey.identity := by
    intro h
    obtain ⟨k, hk, heq⟩ := List.mem_map.mp h
    exact hnew k hk heq
  refine Finset.card_lt_card (Finset.ssubset_iff_of_subset ?_ |>.mpr ⟨key.identity, ?_, ?_⟩)
  · intro x hx
    simp only [Finset.mem_filter, List.map_append, List.mem_append, not_or] at hx ⊢
    exact ⟨hx.1, hx.2.1⟩
  · exact Finset.mem_filter.mpr ⟨hkey, hmem⟩
  · simp

/-- A trail cannot grow beyond the declared targets, so with more room than these there is enough. -/
theorem fold_ne_depthExceeded (hc : c.Plain) (hk : c.Within keys) (hroom : left keys trail < room) :
    c.fold room trail file d ≠ .error .depthExceeded := by
  induction room generalizing trail file d with
  | zero => omega
  | succ room ih =>
    intro h
    rw [fold, foldWith_eq] at h
    obtain ⟨r, _, hbase⟩ := exists_base_of_mergeAll (fun he => he.1 rfl) h
    obtain ⟨key, _, henter | ⟨henter, hload⟩⟩ := base_error hc (fun he => he.1 rfl) hbase
    · unfold enter at henter
      split at henter <;> cases henter
    · obtain ⟨base, hdecl, hfold⟩ := load_error hc (fun he => he.1 rfl) hload
      have hnew := (enter_eq_ok_iff.mp henter).1
      have := left_append (hk key base hdecl) hnew
      exact ih (by omega) hfold

/-! ### What an error about a cycle shows -/

/-- A walk that comes back to its first target, and to no other. -/
structure ClosedWalk (c : Catalogue) (chain : List TargetKey) : Prop where
  closed : ∃ first middle last, chain = first :: middle ++ [last] ∧ first.same last = true
  distinct : (chain.dropLast.map TargetKey.identity).Nodup
  names : List.IsChain c.Names chain

/-- The trail of a target declared in a file: each target on it names the next one, and the last one is
the target itself. -/
structure Walk (c : Catalogue) (trail : List TargetKey) (file : Location) (d : TargetDecl) : Prop where
  distinct : (trail.map TargetKey.identity).Nodup
  names : List.IsChain c.Names trail
  last : ∀ k ∈ trail.getLast?, k.file = file ∧ c.declaration k.file k.name = .ok (some d)

theorem Walk.append {key : TargetKey} (h : c.Walk trail file d) (hr : reference ∈ d.bases)
    (hkey : c.keyOf file reference = .ok key) : List.IsChain c.Names (trail ++ [key]) := by
  refine List.isChain_append.mpr ⟨h.names, List.isChain_singleton _, ?_⟩
  intro k hk k' hk'
  cases Option.mem_some_iff.mp hk'
  obtain ⟨rfl, hd⟩ := h.last k hk
  exact ⟨d, reference, hd, hr, hkey⟩

theorem Walk.declared {key : TargetKey} {base : TargetDecl} (h : c.Walk trail file d)
    (hr : reference ∈ d.bases) (hkey : c.keyOf file reference = .ok key)
    (hnew : ∀ k ∈ trail, k.identity ≠ key.identity)
    (hbase : c.declaration key.file key.name = .ok (some base)) :
    c.Walk (trail ++ [key]) key.file base := by
  refine ⟨?_, h.append hr hkey, ?_⟩
  · rw [List.map_append, List.map_singleton, ← List.concat_eq_append]
    refine .concat (fun hmem => ?_) h.distinct
    obtain ⟨k, hk, hsame⟩ := List.mem_map.mp hmem
    exact hnew k hk hsame
  · intro k hk
    rw [List.getLast?_concat] at hk
    cases Option.mem_some_iff.mp hk
    exact ⟨rfl, hbase⟩

/-- A base that is on the trail already closes a walk. -/
theorem Walk.closed {key : TargetKey} {chain : List TargetKey} (h : c.Walk trail file d)
    (hr : reference ∈ d.bases) (hkey : c.keyOf file reference = .ok key)
    (henter : enter trail key = .error (.reference (.targetCycle chain))) : c.ClosedWalk chain := by
  unfold enter at henter
  split at henter
  · rename_i i hfind
    cases henter
    obtain ⟨hlt, hsame, _⟩ := List.findIdx?_eq_some_iff_getElem.mp hfind
    refine ⟨⟨trail[i], trail.drop (i + 1), key, ?_, hsame⟩, ?_, ?_⟩
    · rw [List.drop_eq_getElem_cons hlt]
    · rw [List.dropLast_concat, List.map_drop]
      exact h.distinct.sublist (List.drop_sublist _ _)
    · have := (h.append hr hkey).drop i
      rwa [List.drop_append_of_le_length (Nat.le_of_lt hlt)] at this
  · cases henter

theorem closed_of_fold (hc : c.Plain) {chain : List TargetKey} (hw : c.Walk trail file d)
    (h : c.fold room trail file d = .error (.reference (.targetCycle chain))) : c.ClosedWalk chain := by
  induction room generalizing trail file d with
  | zero =>
    rw [fold, foldWith_eq] at h
    obtain ⟨r, hr, hbase⟩ := exists_base_of_mergeAll (fun he => he.2 chain rfl) h
    obtain ⟨key, hkey, henter | ⟨_, hload⟩⟩ := base_error hc (fun he => he.2 chain rfl) hbase
    · exact hw.closed hr hkey henter
    · cases hload
  | succ room ih =>
    rw [fold, foldWith_eq] at h
    obtain ⟨r, hr, hbase⟩ := exists_base_of_mergeAll (fun he => he.2 chain rfl) h
    obtain ⟨key, hkey, henter | ⟨henter, hload⟩⟩ := base_error hc (fun he => he.2 chain rfl) hbase
    · exact hw.closed hr hkey henter
    · obtain ⟨base, hdecl, hfold⟩ := load_error hc (fun he => he.2 chain rfl) hload
      exact ih (hw.declared hr hkey (enter_eq_ok_iff.mp henter).1 hdecl) hfold

/-! ### Whole targets -/

theorem fold_of_specOf {spec : TargetSpec} (h : c.specOf room file d = .ok spec) :
    ∃ t, c.fold room (start file d) file d = .ok t := by
  rw [specOf, map_eq_pure_bind] at h
  obtain ⟨_, hmerged, _⟩ := bind_eq_ok.mp h
  obtain ⟨t, ht, _⟩ := bind_eq_ok.mp hmerged
  exact ⟨t, ht⟩

theorem fold_error_of_specOf {e : Error} (he : ¬ e.Other) (h : c.specOf room file d = .error e) :
    c.fold room (start file d) file d = .error e := by
  rw [specOf, map_eq_pure_bind] at h
  rcases bind_eq_error.mp h with hmerged | ⟨_, _, h⟩
  · rcases bind_eq_error.mp hmerged with hfold | ⟨_, _, hoverrides⟩
    · exact hfold
    · exact absurd (OverrideDecl.applyAll_fails _ _ e hoverrides).other he
  · cases h

theorem specOf_ne_depthExceeded (hc : c.Plain) (hk : c.Within keys) (hroom : keys.card < room) :
    c.specOf room file d ≠ .error .depthExceeded := by
  intro h
  refine fold_ne_depthExceeded hc hk ?_ (fold_error_of_specOf (fun he => he.1 rfl) h)
  exact Nat.lt_of_le_of_lt (Finset.card_le_card (Finset.filter_subset _ _)) hroom

theorem closed_of_specOf (hc : c.Plain) (hd : Declared c file d) {chain : List TargetKey}
    (h : c.specOf room file d = .error (.reference (.targetCycle chain))) : c.ClosedWalk chain := by
  refine closed_of_fold hc ?_ (fold_error_of_specOf (fun he => he.2 chain rfl) h)
  unfold start
  cases hname : d.name with
  | none => exact ⟨List.nodup_nil, List.isChain_nil, fun k hk => (by cases hk)⟩
  | some name =>
    refine ⟨List.nodup_singleton _, List.isChain_singleton _, fun k hk => ?_⟩
    cases Option.mem_some_iff.mp hk
    exact ⟨rfl, hd name hname⟩

end Catalogue

section Resolver
variable {σ : Type} {c : Catalogue} {keys : Finset (List Location.Part × String)} {ready : σ → Prop}
  {source : TargetSource (StateM σ)} {v : Visit} {s : σ} {file : Location} {d : TargetDecl}

/-- Over finitely many declared targets, a resolver needs room for no more than these, and more changes
nothing. It gives no spec to a target from which a cycle can be reached, and a cycle that it reports is
one. -/
theorem specOf_finds_cycles (ha : Answers source c ready) (hc : c.Plain) (hk : c.Within keys)
    (h : Reached source c ready v s) (hd : Declared c file d) :
    (∀ room, keys.card < room →
      ((specOf source room file d).at v s).1.1 ≠ .error .depthExceeded ∧
      ((specOf source room file d).at v s).1.1 = ((specOf source (keys.card + 1) file d).at v s).1.1) ∧
    (∀ y, c.Leads file d y → Relation.TransGen c.Edge y y →
      ∀ room spec, ((specOf source room file d).at v s).1.1 ≠ .ok spec) ∧
    ∀ room chain, ((specOf source room file d).at v s).1.1 = .error (.reference (.targetCycle chain)) →
      c.ClosedWalk chain := by
  have hroom : ∀ room, keys.card < room → ((specOf source room file d).at v s).1.1 = c.specOf room file d :=
    fun room hlt => (h.fits ha hd room).same trivial (Catalogue.specOf_ne_depthExceeded hc hk hlt)
  have hplain : ∀ room r, ((specOf source room file d).at v s).1.1 = r → r ≠ .error .depthExceeded →
      ∃ n, c.specOf n file d = r := by
    intro room r hr hne
    obtain ⟨n, hn⟩ := (h.fits ha hd room).settles trivial (hr ▸ hne)
    exact ⟨n, (hn n (Nat.le_refl n)).trans hr⟩
  refine ⟨fun room hlt => ?_, fun y hleads hcycle room spec hspec => ?_, fun room chain hchain => ?_⟩
  · have hne : ∀ room, keys.card < room →
        ((specOf source room file d).at v s).1.1 ≠ .error .depthExceeded := fun room hlt => by
      rw [hroom room hlt]
      exact Catalogue.specOf_ne_depthExceeded hc hk hlt
    exact ⟨hne room hlt, ((h.fits ha hd room).settles trivial (hne room hlt)).unique
      ((h.fits ha hd _).settles trivial (hne _ (Nat.lt_succ_self keys.card)))⟩
  · obtain ⟨n, hn⟩ := hplain room _ hspec (by simp)
    obtain ⟨t, ht⟩ := Catalogue.fold_of_specOf hn
    exact Catalogue.acyclic_of_tree (Catalogue.tree_of_fold ht) hleads hcycle
  · obtain ⟨n, hn⟩ := hplain room _ hchain (by simp)
    exact Catalogue.closed_of_specOf hc hd hn

end Resolver

/-! ### Finitely many targets -/

namespace Catalogue

def keysOf (targets : List (Location × TargetDecl)) : Finset (List Location.Part × String) :=
  (targets.map fun e => (e.1.parts, e.2.name.getD "")).toFinset

theorem ofTargets_plain (targets : List (Location × TargetDecl)) : (ofTargets targets).Plain :=
  ⟨fun _ _ => .ok _, fun _ _ => .ok _⟩

theorem ofTargets_within (targets : List (Location × TargetDecl)) :
    (ofTargets targets).Within (keysOf targets) := by
  intro key d h
  obtain ⟨e, hfind, rfl⟩ := Option.map_eq_some_iff.mp (Except.ok.inj h)
  have hsame := List.find?_some hfind
  simp only [Bool.and_eq_true, beq_iff_eq, Location.same] at hsame
  refine List.mem_toFinset.mpr (List.mem_map.mpr ⟨e, List.mem_of_find?_eq_some hfind, ?_⟩)
  rw [hsame.1, hsame.2]
  rfl

end Catalogue

namespace Ring

def outside : TargetDecl := { name := some "outside", extends? := some (.one "d/b.json::first") }

def first : TargetDecl := { name := some "first", extends? := some (.many ["c.json::plain", "second"]) }

def second : TargetDecl := { name := some "second", extends? := some (.one "d//b.json::first") }

def plain : TargetDecl := { name := some "plain" }

/-- A target outside a ring of two. -/
def targets : List (Location × TargetDecl) :=
  [(⟨"a.json"⟩, outside), (⟨"d/b.json"⟩, first), (⟨"d/b.json"⟩, second), (⟨"c.json"⟩, plain)]

def file : Location := ⟨"a.json"⟩

def catalogue : Catalogue := .ofTargets targets

def chain : List TargetKey :=
  [⟨⟨"d/b.json"⟩, "first"⟩, ⟨⟨"d/b.json"⟩, "second"⟩, ⟨⟨"d//b.json"⟩, "first"⟩]

/-- What a fresh resolver gives the target outside. -/
def found (room : Nat) : Outcome TargetSpec := ((specOf catalogue.source room file outside).at {} ()).1.1

/-- The cycle that an outcome reports. -/
def cycle? : Outcome TargetSpec → Option (List TargetKey)
  | .error (.reference (.targetCycle chain)) => some chain
  | _ => none

theorem eq_error_of_cycle? {r : Outcome TargetSpec} {chain : List TargetKey} (h : cycle? r = some chain) :
    r = .error (.reference (.targetCycle chain)) := by
  unfold cycle? at h
  split at h
  · cases h
    rfl
  · cases h

end Ring

/-- However much room there is, the ring is reported, without the target outside. -/
theorem specOf_finds_ring :
    Ring.catalogue.ClosedWalk Ring.chain ∧
      ∀ room, 4 < room → Ring.found room = .error (.reference (.targetCycle Ring.chain)) := by
  have hd : Declared Ring.catalogue Ring.file Ring.outside := by
    intro name h
    cases h
    rfl
  obtain ⟨hroom, _, hclosed⟩ := specOf_finds_cycles Ring.catalogue.source_answers
    (Catalogue.ofTargets_plain Ring.targets) (Catalogue.ofTargets_within Ring.targets)
    (.start (s := ()) trivial) hd
  have hcard : (Catalogue.keysOf Ring.targets).card = 4 := by decide +kernel
  have hchain : Ring.found 5 = .error (.reference (.targetCycle Ring.chain)) :=
    Ring.eq_error_of_cycle? (by decide +kernel)
  rw [hcard] at hroom
  refine ⟨hclosed 5 Ring.chain hchain, fun room hlt => ?_⟩
  exact (hroom room hlt).2.trans ((hroom 5 (by decide)).2.symm.trans hchain)

end Inheritance

end Bitpress
