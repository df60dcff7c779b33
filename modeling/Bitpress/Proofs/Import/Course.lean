import Bitpress.Proofs.Import.Standing
import Bitpress.Proofs.Load.Build

/-!
The course of loads.

While some registries are being loaded, the store grows, every current registry
was built from its document and its imports, and none of those being loaded is
current (`Load.loading`). A load that fails does not fail for want of room, nor
because two elements have the same identity. Each registry that its error names
leads to the next; if it reports a cycle of imports, so does each registry of the
chain, and their builds were under way, each in the course of the one before; if
it reports a cycle of presets, the files have one (`Library.Fair`).

A registry leads to those that its build requests. Where queries are run that are
in no file, it may be taken to lead anywhere.
-/

namespace Bitpress

namespace Library

/-- An error of a load with some registries on the trail, each leading to the next. -/
structure Fair (l : Library) (R : Location → Location → Prop) (trail : List Location) (e : Error) : Prop where
  walk : e.Blameless ∨ Trail R id (trail ++ e.loads)
  room : e.root ≠ .depthExceeded
  distinct : ∀ label, e.root ≠ .duplicateElement label
  closed : ∀ chain, e.root = .reference (.importCycle chain) →
    ClosedWalk R id chain ∧ chain.dropLast <:+ trail ++ e.loads
  picked : ∀ chain, e.root = .reference (.defaultsCycle chain) ∨ e.root = .reference (.presetCycle chain) →
    l.Circle chain

variable {l : Library} {R : Location → Location → Prop} {trail : List Location} {e : Error} {p : Location}

theorem fair_of_plain (h : e.Plain) : l.Fair R trail e where
  walk := .inl h.blameless
  room hroot := by
    have hend := h.root
    rw [hroot] at hend
    exact hend
  distinct label hroot := by
    have hend := h.root
    rw [hroot] at hend
    exact hend
  closed chain hroot := by
    have hend := h.root
    rw [hroot] at hend
    exact hend.elim
  picked chain hroot := by
    have hend := h.root
    rcases hroot with hroot | hroot
    all_goals
      rw [hroot] at hend
      exact hend.elim

/-- References that are no imports. -/
theorem fair_of_reference {fault : ReferenceFault} (hblameless : e.Blameless) (h : e.root = .reference fault)
    (hother : ∀ chain, fault ≠ .importCycle chain)
    (hpicked : ∀ chain, fault = .defaultsCycle chain ∨ fault = .presetCycle chain → l.Circle chain) :
    l.Fair R trail e where
  walk := .inl hblameless
  room hroot := by cases h.symm.trans hroot
  distinct label hroot := by cases h.symm.trans hroot
  closed chain hroot := by
    cases h.symm.trans hroot
    exact absurd rfl (hother chain)
  picked chain hroot := hpicked chain (hroot.imp (fun hroot => Error.reference.inj (h.symm.trans hroot))
    fun hroot => Error.reference.inj (h.symm.trans hroot))

theorem Fair.within (h : l.Fair R trail e) (context : String) : l.Fair R trail (.within context e) :=
  ⟨h.walk, h.room, h.distinct, h.closed, h.picked⟩

theorem Fair.registryLoad (htrail : Trail R id (trail ++ [p])) (h : l.Fair R (trail ++ [p]) e) :
    l.Fair R trail (.registryLoad p e) where
  walk := by
    refine .inr ?_
    show Trail R id (trail ++ p :: e.loads)
    rcases h.walk with hblameless | hwalk
    · rw [hblameless]
      exact htrail
    · rwa [List.append_assoc, List.singleton_append] at hwalk
  room := h.room
  distinct := h.distinct
  closed chain hroot := by
    have := h.closed chain hroot
    rwa [List.append_assoc, List.singleton_append] at this
  picked := h.picked

/-- A registry that is on the trail is not loaded again: the trail from there on is a cycle. -/
theorem fair_of_checkCycle (htrail : Trail R id trail) (hlast : ∀ q ∈ trail.getLast?, R q p)
    (h : Load.checkCycle trail p = .error e) : l.Fair R trail e := by
  unfold Load.checkCycle at h
  split at h
  · rename_i i hfound
    cases h
    obtain ⟨hi, hsame, _⟩ := List.findIdx?_eq_some_iff_getElem.mp hfound
    refine ⟨.inl rfl, fun hroot => (by cases hroot), fun _ hroot => (by cases hroot), fun chain hroot => ?_,
      fun chain hroot => hroot.elim (fun h => by cases h) fun h => by cases h⟩
    cases hroot
    refine ⟨htrail.close hlast hi (eq_of_beq hsame), ?_⟩
    show _ <:+ trail ++ []
    rw [List.dropLast_concat, List.append_nil]
    exact List.drop_suffix i trail
  · cases h

end Library

namespace Load

open Store

/-- Loads in one generation, with some registries on the trail. -/
def loading (l : Library) (R : Location → Location → Prop) (generation : Nat) (trail : List Location) : Course Store where
  inv s := s.generation = generation ∧ s.Standing l ∧ ∀ q ∈ trail, ¬ s.Current q
  le := Grown
  err := l.Fair R trail
  refl := .refl
  trans := .trans

/-- A build that began with a store, as a setting for queries: other registries lend their bits when they are
current, and the presets are those of the bits that current registries declare, and of those declared in the
registry being built. -/
def setting (l : Library) (R : Location → Location → Prop) (generation : Nat) (trail : List Location) (p : Location)
    (base : Store) (own : List Bit) : Setting where
  inv g := (loading l R generation trail).inv g.1 ∧ Grown base g.1 ∧ ∀ q ∈ g.2, g.1.Current q
  le g h := Grown g.1 h.1
  bits g q c := g.1.Current q ∧ (g.1.registry q).contents.bits = c
  pairs g := l.places.flatMap fun q =>
    if q = p then own.flatMap Bit.pairs
    else if (g.1.registry q).isCurrent g.1.generation then (g.1.own .bits q).flatMap Bit.pairs
    else []
  fails := l.Fair R trail
  refl g := .refl g.1
  trans := .trans

/-- The steps of such a build. -/
abbrev building (l : Library) (R : Location → Location → Prop) (generation : Nat) (trail : List Location) (p : Location)
    (base : Store) (own : List Bit) : Course Building :=
  (setting l R generation trail p base own).course

/-- Registries that a registry leads to can be loaded. -/
def Fetches (l : Library) (R : Location → Location → Prop) (generation : Nat) (trail : List Location) (p : Location)
    (fetch : Location → StoreM Unit) : Prop :=
  ∀ q s, (loading l R generation trail).inv s → R p q → q.Canonical → q ∉ trail →
    Comes (loading l R generation trail) (fetch q) s fun _ t => t.Current q

variable {α : Type} {l : Library} {R : Location → Location → Prop} {generation : Nat} {trail : List Location}
  {p q : Location} {base : Store}
  {own : List Bit} {fetch : Location → StoreM Unit} {s : Building}

theorem onStore_comes {x : StoreM α} {post : α → Store → Prop} (hs : (building l R generation trail p base own).inv s)
    (hx : Comes (loading l R generation trail) x s.store post) :
    Comes (building l R generation trail p base own) (Build.onStore x) s fun a t =>
      post a t.store ∧ t.dependencies = s.dependencies := by
  refine .of_effect (Build.effect_onStore x s) (fun a ha => ?_) fun e he => hx.error e _ (Prod.ext he rfl)
  obtain ⟨hinv, hle, hpost⟩ := hx.ok a _ (Prod.ext ha rfl)
  exact ⟨⟨hinv, hs.2.1.trans hle, fun q hq => hle.current (hs.2.2 q hq)⟩, ⟨hle, rfl⟩, hpost, rfl⟩

theorem ofOutcome_comes {x : Outcome α} (hs : (building l R generation trail p base own).inv s)
    (hx : Outcome.Fails (l.Fair R trail) x) :
    Comes (building l R generation trail p base own) (Build.ofOutcome x) s fun a t => x = .ok a ∧ t = s :=
  .of_effect (Build.effect_ofOutcome x s) (fun _ ha => ⟨hs, Course.refl _ s, ha, rfl⟩) hx

/-- A registry that the build of another one leads to is current once it is loaded, and the build depends on it. -/
theorem depend_comes (hfetch : Fetches l R generation trail p fetch) (htrail : Trail R id trail)
    (hlast : trail.getLast? = some p) (hs : (building l R generation trail p base own).inv s) (hq : R p q)
    (hcanonical : q.Canonical) :
    Comes (building l R generation trail p base own) (depend fetch trail q) s fun c t =>
      t.store.Current q ∧ c = (t.store.registry q).contents ∧
        t.dependencies = if q ∈ s.dependencies then s.dependencies else s.dependencies ++ [q] := by
  have honce : Comes (building l R generation trail p base own) (loadOnce fetch trail q) s fun _ t =>
      t.store.Current q ∧ t.dependencies = if q ∈ s.dependencies then s.dependencies else s.dependencies ++ [q] := by
    refine .get_bind ?_
    by_cases hmem : q ∈ s.dependencies
    · have hcontains : s.dependencies.contains q = true := List.contains_iff_mem.mpr hmem
      rw [if_pos hmem]
      simp only [hcontains]
      exact .pure hs ⟨hs.2.2 q hmem, rfl⟩
    · have hcontains : s.dependencies.contains q = false :=
        Bool.eq_false_iff.mpr fun h => hmem (List.contains_iff_mem.mp h)
      rw [if_neg hmem]
      simp only [hcontains]
      have hcheck : Outcome.Fails (l.Fair R trail) (checkCycle trail q) := fun e he =>
        Library.fair_of_checkCycle htrail (fun p' hp' => by cases hlast.symm.trans hp'; exact hq) he
      refine (ofOutcome_comes hs hcheck).bind fun _ t ht _ h => ?_
      obtain ⟨hok, rfl⟩ := h
      refine (onStore_comes ht (hfetch q t.store ht.1 hq hcanonical (checkCycle_eq_ok.mp hok))).bind
        fun _ u hu _ h => ?_
      obtain ⟨hcurrent, hdependencies⟩ := h
      refine .modify ⟨hu.1, hu.2.1, fun q' hq' => ?_⟩ ⟨.refl _, rfl⟩ ⟨hcurrent, by rw [hdependencies]⟩
      rcases List.mem_append.mp hq' with hq' | hq'
      · exact hu.2.2 q' hq'
      · rw [List.mem_singleton.mp hq']
        exact hcurrent
  refine honce.bind fun _ t ht _ h => .get_bind (.pure ht ⟨h.1, rfl, h.2⟩)

end Load

end Bitpress
