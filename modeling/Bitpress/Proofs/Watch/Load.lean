import Bitpress.Proofs.Import.Load
import Bitpress.Proofs.Watch.Reach

/-!
What was loaded is watched.

While a build is under way it takes down what it has loaded, and each registry
that a load has entered is led to from one of these through registries that are
current (`Load.coverage`). A registry that is made current depends on what its
build has taken down, so all that its load has entered is led to from it
(`Load.load_covers`), and is watched after a request that succeeds
(`Store.Reachable.get_watched`). A build that fails leaves no dependencies, so
after a request that fails less may be watched.
-/

namespace Bitpress

namespace Load

open Store

/-- A current registry was built from another one. -/
def Needs (s : Store) (p q : Location) : Prop := s.Current p ∧ s.DependsOn p q

/-- Loads in one generation: some registries lead to all those that the loads have entered. -/
structure Covers (s t : Store) (roots : List Location) : Prop where
  generation : t.generation = s.generation
  same : ∀ p, s.Current p → t.registry p = s.registry p
  entered : ∃ events, t.trace = s.trace ++ events ∧
    ∀ q ∈ entered events, ∃ p ∈ roots, Relation.ReflTransGen (Needs t) p q

variable {α : Type} {l : Library} {extent : Library.Extent} {generation : Nat} {mode : LoadMode}
  {trail roots more : List Location} {fetch : Location → StoreM Unit} {s t u : Store} {p q : Location}

/-! ### One after the other -/

theorem Covers.of_same (hgeneration : t.generation = s.generation) (hsame : ∀ p, t.registry p = s.registry p)
    (htrace : t.trace = s.trace) (roots : List Location) : Covers s t roots where
  generation := hgeneration
  same p _ := hsame p
  entered := ⟨[], htrace.trans (List.append_nil _).symm, fun _ hq => by cases hq⟩

theorem needs_mono (hgeneration : t.generation = s.generation)
    (hsame : ∀ p, s.Current p → t.registry p = s.registry p) : Needs s ≤ Needs t := by
  intro p q ⟨hcurrent, hdepends⟩
  refine ⟨hcurrent.congr hgeneration (hsame p hcurrent), ?_⟩
  unfold Store.DependsOn
  rw [hsame p hcurrent]
  exact hdepends

theorem Covers.trans (h : Covers s t roots) (hroots : roots ⊆ more) (h' : Covers t u more) : Covers s u more where
  generation := h'.generation.trans h.generation
  same p hp := (h'.same p (hp.congr h.generation (h.same p hp))).trans (h.same p hp)
  entered := by
    obtain ⟨xs, hxs, hfirst⟩ := h.entered
    obtain ⟨ys, hys, hthen⟩ := h'.entered
    refine ⟨xs ++ ys, by rw [hys, hxs, List.append_assoc], fun q hq => ?_⟩
    rw [Load.entered, List.filterMap_append] at hq
    rcases List.mem_append.mp hq with hq | hq
    · obtain ⟨p, hp, hpath⟩ := hfirst q hq
      exact ⟨p, hroots hp, Relation.ReflTransGen.mono (needs_mono h'.generation h'.same) _ _ hpath⟩
    · exact hthen q hq

/-! ### Builds -/

variable (generation) in
/-- Builds in a generation take down what leads to all that they have entered. -/
def coverage : Passage Building where
  ok b c := b.store.generation = generation →
    b.dependencies ⊆ c.dependencies ∧ Covers b.store c.store c.dependencies
  err _ _ _ := True
  refl _ _ := ⟨List.Subset.refl _, .of_same rfl (fun _ => rfl) rfl _⟩
  trans h h' hs :=
    have ⟨hsub, hcovers⟩ := h hs
    have ⟨hsub', hcovers'⟩ := h' (hcovers.generation.trans hs)
    ⟨List.Subset.trans hsub hsub', hcovers.trans hsub' hcovers'⟩
  fail _ _ := trivial
  wrap _ _ := trivial
  trans_err _ _ := trivial

theorem coverage_suits : (coverage generation).Suits where
  session b session _ := ⟨List.Subset.refl _,
    .of_same (s := b.store) (t := { b.store with session }) rfl (fun _ => rfl) rfl _⟩
  defaults b id c _ := ⟨List.Subset.refl _, .of_same (putDefaults_generation b.store id c)
    (putDefaults_registry b.store id c) (putDefaults_trace b.store id c) _⟩
  visiting key _ hx := .visiting (fun _ _ _ _ h => h) (fun _ _ _ _ _ _ => trivial) key hx

/-- A registry is taken down once it was loaded. -/
theorem depend_coverage (hfetch : ∀ q s t, s.generation = generation → effect (fetch q) s = (.ok (), t) →
    Covers s t [q]) (p : Location) : (coverage generation).Keeps (depend fetch trail p) := by
  refine ⟨fun b => ?_⟩
  rw [effect_depend]
  split
  · exact (coverage generation).refl b
  · cases checkCycle trail p with
    | error e => trivial
    | ok _ =>
      rcases hloaded : effect (fetch p) b.store with ⟨_ | _, t⟩
      · trivial
      · intro hgeneration
        have hcovers := hfetch p b.store t hgeneration hloaded
        have hsub : [p] ⊆ b.dependencies ++ [p] := List.subset_append_right _ _
        exact ⟨List.subset_append_left _ _, hcovers.trans hsub (.of_same rfl (fun _ => rfl) rfl _)⟩

theorem build_dependencies {b c : Building} {contents : Contents}
    (h : effect (build l extent fetch mode trail p) b = (.ok contents, c)) :
    contents.dependencies = c.dependencies := by
  obtain ⟨_, _, _, h⟩ := effect_bind_eq_ok.mp h
  obtain ⟨_, _, _, h⟩ := effect_bind_eq_ok.mp h
  obtain ⟨_, _, _, h⟩ := effect_bind_eq_ok.mp h
  obtain ⟨_, _, _, h⟩ := effect_bind_eq_ok.mp h
  obtain ⟨_, _, _, h⟩ := effect_bind_eq_ok.mp h
  obtain ⟨_, _, _, h⟩ := effect_bind_eq_ok.mp h
  obtain ⟨_, _, hget, h⟩ := effect_bind_eq_ok.mp h
  cases hget
  cases h
  rfl

/-! ### Loads -/

/-- A registry that is made current leads to all that its build has entered. -/
theorem covers_of_built {c : Contents} (hbuilt : Covers (begun s mode p) t c.dependencies) (hnew : ¬ s.Current p)
    (hidle : ¬ t.Current p) :
    Covers s (t.put ⟨p, .loaded, s.generation, some ((s.registry p).modeFor mode), c⟩) [p] := by
  have hgeneration : t.generation = s.generation := hbuilt.generation
  have hjoins := joins_put hgeneration ((s.registry p).modeFor mode) hidle c
  have hbegun : ∀ q, s.Current q → (begun s mode p).registry q = s.registry q := fun q hq =>
    have hne : q ≠ p := fun he => hnew (he ▸ hq)
    (begun_untouched s mode hne).same
  refine ⟨hgeneration, fun q hq => ?_, ?_⟩
  · have ht : t.registry q = s.registry q :=
      (hbuilt.same q (hq.congr rfl (hbegun q hq))).trans (hbegun q hq)
    exact (hjoins.kept.same q (hq.congr hgeneration ht)).trans ht
  · obtain ⟨events, htrace, hentered⟩ := hbuilt.entered
    refine ⟨.loading p ((s.registry p).modeFor mode) :: events, ?_, fun q hq => ⟨p, List.mem_singleton_self p, ?_⟩⟩
    · show t.trace = _
      rw [htrace]
      exact List.append_assoc ..
    · rcases List.mem_cons.mp hq with rfl | hq
      · exact .refl
      · obtain ⟨d, hd, hpath⟩ := hentered q hq
        have hneeds : Needs (t.put ⟨p, .loaded, s.generation, some ((s.registry p).modeFor mode), c⟩) p d := by
          refine ⟨hjoins.current, ?_⟩
          unfold Store.DependsOn
          rw [hjoins.contents]
          exact hd
        have hmono := needs_mono hjoins.kept.generation hjoins.kept.same
        exact .head hneeds (Relation.ReflTransGen.mono hmono _ _ hpath)

/-- While a registry is being built it is not current. -/
theorem Loads.idle (h : Loads l extent (trail ++ [p]) roots (begun s mode p) t) : ¬ t.Current p := by
  obtain ⟨events, -, -, hfates⟩ := h
  have hsame := ((hfates p).2 (List.mem_append_right _ (List.mem_singleton_self p))).same
  unfold Current
  rw [hsame, begun_registry]
  simp [Registry.isCurrent]

/-- A load that succeeds leads from its registry to all that it has entered. -/
theorem load_covers (room : Nat) : ∀ {mode : LoadMode} {trail : List Location} {p : Location} {s t : Store},
    effect (load l extent room mode trail p) s = (.ok (), t) → ¬ s.Current p → Covers s t [p] := by
  induction room with
  | zero =>
    intro mode trail p s t h
    rw [load_zero] at h
    cases h
  | succ room ih =>
    intro mode trail p s t h hnew
    rw [load_succ, effect_loadWith] at h
    split at h
    · rename_i c u hbuild
      cases h
      have hidle : ¬ u.Current p :=
        ((buildFrom_keeps mode s fun q hq => unlessCurrent_keeps room .dependency hq).of_ok hbuild rfl).idle
      obtain ⟨b, hbuilt, rfl⟩ := effect_ofBuild_eq_ok.mp hbuild
      have hfetch : ∀ q s' t', s'.generation = s.generation →
          effect (unlessCurrent s.generation (load l extent room .dependency (trail ++ [p])) q) s' = (.ok (), t') →
          Covers s' t' [q] := by
        intro q s' t' hgeneration h
        rw [effect_unlessCurrent] at h
        split at h
        · cases h
          exact .of_same rfl (fun _ => rfl) rfl _
        · rename_i hq
          exact ih h (by unfold Current; rwa [hgeneration])
      have hcovers := ((build_keeps coverage_suits (depend_coverage hfetch) extent _ p).of_ok hbuilt rfl).2
      rw [← build_dependencies hbuilt] at hcovers
      exact covers_of_built hcovers hnew hidle
    · cases h

end Load

namespace Store

open Load

variable {l : Library} {s t : Store} {p : Location} {r : Registry}

/-- After a request that succeeds, every registry whose load has begun in its course is watched. -/
theorem Reachable.get_watched (hs : s.Reachable) (h : effect (get l p) s = (.ok r, t)) :
    ∃ events, t.trace = s.trace ++ events ∧ ∀ q ∈ entered events, q ∈ t.watchPaths l p := by
  obtain ⟨root, hroot, hreload, -⟩ := get_eq_ok h
  have hnew : ¬ s.renewed.Current root := Bool.eq_false_iff.mp (hs.calm.not_current root)
  obtain ⟨events, htrace, hentered⟩ := (load_covers _ hreload hnew).entered
  refine ⟨events, htrace, fun q hq => (mem_watchPaths hroot).mpr ?_⟩
  obtain ⟨_, hroots, hpath⟩ := hentered q hq
  rw [List.mem_singleton] at hroots
  subst hroots
  exact Relation.ReflTransGen.mono (fun _ _ hneeds => hneeds.2) _ _ hpath

/-- After a request that fails it may not be so: what the registry needed before its target failed is not watched. -/
theorem unwatched_of_broken :
    let t := (Call.get Shelf.broken Shelf.a).after {}
    entered t.trace = [Shelf.a, Shelf.b] ∧ t.watchPaths Shelf.broken Shelf.a = [Shelf.a] := by
  decide +kernel

end Store

end Bitpress
