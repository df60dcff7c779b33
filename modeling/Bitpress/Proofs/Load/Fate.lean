import Bitpress.Proofs.Load.Build

/-!
What becomes of each registry while loads are under way.

In one generation a registry is left alone, or it is built once, or its build
fails (`Fate`). A success is final, as the registry is current from then on, and
so is a failure, as it ends everything: the registries that fail are those that
the error names, each in the course of the one before (`Loads`). `load_between` says that every
load moves the store in this way and leaves the registries on the trail alone.
-/

namespace Bitpress

def LoadEvent.path : LoadEvent → Location
  | .loading p _ => p
  | .failed p => p

/-- The registry whose load has begun. -/
def LoadEvent.entered? : LoadEvent → Option Location
  | .loading p _ => some p
  | .failed _ => none

/-- The registry whose build has failed. -/
def LoadEvent.failed? : LoadEvent → Option Location
  | .loading .. => none
  | .failed p => some p

namespace Load

open Store

variable {p : Location}

/-- What was said about a registry. -/
def heard (p : Location) (events : List LoadEvent) : List LoadEvent := events.filter fun e => e.path == p

theorem heard_append (p : Location) (xs ys : List LoadEvent) :
    heard p (xs ++ ys) = heard p xs ++ heard p ys := List.filter_append ..

/-- The registries whose loads have begun, in order. -/
def entered (events : List LoadEvent) : List Location := events.filterMap LoadEvent.entered?

/-- The registries whose builds have failed, in order. -/
def failures (events : List LoadEvent) : List Location := events.filterMap LoadEvent.failed?

theorem mem_failures {events : List LoadEvent} : p ∈ failures events ↔ .failed p ∈ events := by
  refine List.mem_filterMap.trans ⟨fun ⟨e, he, hp⟩ => ?_, fun h => ⟨_, h, rfl⟩⟩
  cases e with
  | loading => cases hp
  | failed =>
    cases hp
    exact he

theorem failures_append (xs ys : List LoadEvent) : failures (xs ++ ys) = failures xs ++ failures ys :=
  List.filterMap_append

/-- The builds of some registries fail, each begun in the course of the one before, and no other build does. -/
def Unwinds : List Location → List LoadEvent → Prop
  | [], events => failures events = []
  | p :: rest, events => ∃ before mode inside, failures before = [] ∧ Unwinds rest inside ∧
      events = before ++ .loading p mode :: inside ++ [.failed p]

theorem Unwinds.after {blamed : List Location} {xs ys : List LoadEvent} (hxs : failures xs = [])
    (h : Unwinds blamed ys) : Unwinds blamed (xs ++ ys) := by
  cases blamed with
  | nil =>
    show failures (xs ++ ys) = []
    rw [failures_append, hxs]
    exact h
  | cons p rest =>
    obtain ⟨before, mode, inside, hbefore, hinside, rfl⟩ := h
    refine ⟨xs ++ before, mode, inside, ?_, hinside, by simp only [List.append_assoc]⟩
    rw [failures_append, hxs, hbefore]
    rfl

/-- The outermost build fails last. -/
theorem Unwinds.failures_eq {blamed : List Location} {events : List LoadEvent} (h : Unwinds blamed events) :
    failures events = blamed.reverse := by
  induction blamed generalizing events with
  | nil => exact h
  | cons p rest ih =>
    obtain ⟨before, mode, inside, hbefore, hinside, rfl⟩ := h
    rw [failures_append, failures_append, hbefore, List.reverse_cons, ← ih hinside]
    rfl

theorem mem_heard {e : LoadEvent} {events : List LoadEvent} (h : e ∈ events) : e ∈ heard e.path events :=
  List.mem_filter.mpr ⟨h, beq_self_eq_true _⟩

/-- A build of a registry that ran to its end, from one store to another. -/
structure CompleteBuild (l : Library) (extent : Library.Extent) (p : Location) where
  room : Nat
  generation : Nat
  trail : List Location
  mode : LoadMode
  before : Store
  after : Store
  contents : Contents
  complete : effect (ofBuild (build l extent
    (unlessCurrent generation (load l extent room .dependency trail)) mode trail p)) before =
      (.ok contents, after)

/-- What loads change in the store besides registries. -/
structure Moved (s t : Store) (events : List LoadEvent) : Prop where
  generation : t.generation = s.generation
  trace : t.trace = s.trace ++ events
  defaults : KeepsDefaults s t

/-- A registry was left alone between two stores. -/
structure Untouched (s t : Store) (events : List LoadEvent) (p : Location) : Prop where
  silent : heard p events = []
  same : t.registry p = s.registry p

/-- What became of a registry between two stores, when `fails` says whether its build may have failed. -/
inductive Fate (l : Library) (extent : Library.Extent) (fails : Prop) (s t : Store)
    (events : List LoadEvent) (p : Location) : Prop
  | untouched (h : Untouched s t events p)
  | built (b : CompleteBuild l extent p) (now : b.generation = s.generation)
      (new : (s.registry p).isCurrent s.generation = false)
      (said : heard p events = [.loading p b.mode]) (start : s.trace <+: b.before.trace)
      (finish : b.after.trace <+: t.trace) (kept : KeepsDefaults b.after t)
      (settled : s.Settled → b.after.Settles b.contents)
      (made : t.registry p = ⟨p, .loaded, s.generation, some b.mode, b.contents⟩)
  | failed (mode : LoadMode) (fault : fails) (new : (s.registry p).isCurrent s.generation = false)
      (said : heard p events = [.loading p mode, .failed p])
      (same : t.registry p = { s.registry p with status := .failed })

variable {l : Library} {extent : Library.Extent} {fails : Prop} {s t u : Store} {xs ys : List LoadEvent}
  {p q : Location}

theorem Moved.refl (s : Store) : Moved s s [] := ⟨rfl, (List.append_nil _).symm, fun _ _ h => h⟩

theorem Moved.trans (h : Moved s t xs) (h' : Moved t u ys) : Moved s u (xs ++ ys) where
  generation := h'.generation.trans h.generation
  trace := by rw [h'.trace, h.trace, List.append_assoc]
  defaults := h.defaults.trans h'.defaults

theorem Untouched.trans (h : Untouched s t xs p) (h' : Untouched t u ys p) : Untouched s u (xs ++ ys) p where
  silent := by rw [heard_append, h.silent, h'.silent]; rfl
  same := h'.same.trans h.same

namespace Fate

/-- What a registry shows afterwards is settled: it showed it before, or a build has made it. -/
theorem settles (h : Fate l extent fails s t xs p) (hm : Moved s t xs) (hs : s.Settled) :
    t.Settles (t.registry p).contents := by
  cases h with
  | untouched h =>
    rw [h.same]
    exact (hs p).mono hm.defaults
  | built b _ _ _ _ _ kept settled made =>
    rw [made]
    exact (settled hs).mono kept
  | failed _ _ _ _ same =>
    rw [same]
    exact (hs p).mono hm.defaults

theorem settled {fails : Location → Prop} (h : ∀ p, Fate l extent (fails p) s t xs p) (hm : Moved s t xs)
    (hs : s.Settled) : t.Settled :=
  fun p => (h p).settles hm hs

/-- What becomes of a registry after it was left alone. -/
theorem after (hm : Moved s t xs) (hfates : s.Settled → t.Settled) (hu : Untouched s t xs p)
    (h : Fate l extent fails t u ys p) : Fate l extent fails s u (xs ++ ys) p := by
  have hsaid : heard p (xs ++ ys) = heard p ys := by rw [heard_append, hu.silent, List.nil_append]
  cases h with
  | untouched h => exact .untouched (hu.trans h)
  | built b now new said start finish kept settled made =>
    rw [hu.same, hm.generation] at new
    refine .built b (now.trans hm.generation) new (hsaid.trans said) ?_ finish kept (fun hs => settled (hfates hs)) ?_
    · exact (List.prefix_append ..).trans (hm.trace ▸ start)
    · rw [made, hm.generation]
  | failed mode fault new said same =>
    rw [hu.same, hm.generation] at new
    exact .failed mode fault new (hsaid.trans said) (by rw [same, hu.same])

/-- What became of a registry before it was left alone. -/
theorem before (hm : Moved t u ys) (hu : Untouched t u ys p) (h : Fate l extent fails s t xs p) :
    Fate l extent fails s u (xs ++ ys) p := by
  have hsaid : heard p (xs ++ ys) = heard p xs := by rw [heard_append, hu.silent, List.append_nil]
  cases h with
  | untouched h => exact .untouched (h.trans hu)
  | built b now new said start finish kept settled made =>
    refine .built b now new (hsaid.trans said) start ?_ (kept.trans hm.defaults) settled (hu.same.trans made)
    exact finish.trans (hm.trace ▸ List.prefix_append ..)
  | failed mode fault new said same =>
    exact .failed mode fault new (hsaid.trans said) (hu.same.trans same)

/-- A registry that is current is left alone. -/
theorem of_current (hcurrent : (s.registry p).isCurrent s.generation = true)
    (h : Fate l extent fails s t xs p) : Untouched s t xs p := by
  cases h with
  | untouched h => exact h
  | built b now new => rw [hcurrent] at new; cases new
  | failed mode fault new => rw [hcurrent] at new; cases new

theorem imp {fails' : Prop} (h : Fate l extent fails s t xs p) (himp : fails → fails') :
    Fate l extent fails' s t xs p := by
  cases h with
  | untouched h => exact .untouched h
  | built b now new said start finish kept settled made => exact .built b now new said start finish kept settled made
  | failed mode fault new said same => exact .failed mode (himp fault) new said same

/-- A registry with a failed build shows that. -/
theorem status_failed (h : Fate l extent fails s t xs p) (hp : p ∈ failures xs) :
    (t.registry p).status = .failed := by
  have hsaid : .failed p ∈ heard p xs := mem_heard (mem_failures.mp hp)
  cases h with
  | untouched h => rw [h.silent] at hsaid; cases hsaid
  | built b _ _ said => rw [said] at hsaid; cases List.mem_singleton.mp hsaid
  | failed _ _ _ _ same => rw [same]

theorem trans (hm : Moved s t xs) (hm' : Moved t u ys) (hfates : ∀ p, Fate l extent (p ∈ []) s t xs p)
    (h' : Fate l extent fails t u ys p) : Fate l extent fails s u (xs ++ ys) p := by
  cases hfates p with
  | untouched h => exact h'.after hm (settled hfates hm) h
  | built b now new said start finish kept settled made =>
    -- What was built is current, so nothing more becomes of it.
    have hcurrent : (t.registry p).isCurrent t.generation = true := by
      rw [made, hm.generation]
      simp [Registry.isCurrent]
    exact Fate.before hm' (h'.of_current hcurrent) (.built b now new said start finish kept settled made)
  | failed _ fault => cases fault

end Fate

/-- What loads with some registries on the trail do to the store: the builds of those that are blamed fail. -/
def Loads (l : Library) (extent : Library.Extent) (trail blamed : List Location) (s t : Store) : Prop :=
  ∃ events, Moved s t events ∧ Unwinds blamed events ∧
    ∀ p, Fate l extent (p ∈ blamed) s t events p ∧ (p ∈ trail → Untouched s t events p)

variable {trail blamed : List Location}

theorem Loads.refl (trail : List Location) (s : Store) : Loads l extent trail [] s s :=
  ⟨[], .refl s, rfl, fun _ => ⟨.untouched ⟨rfl, rfl⟩, fun _ => ⟨rfl, rfl⟩⟩⟩

theorem Loads.trans (h : Loads l extent trail [] s t) (h' : Loads l extent trail blamed t u) :
    Loads l extent trail blamed s u := by
  obtain ⟨xs, hm, hnone, hfates⟩ := h
  obtain ⟨ys, hm', hblamed, hfates'⟩ := h'
  refine ⟨xs ++ ys, hm.trans hm', hblamed.after hnone, fun p => ⟨?_, fun hp => ?_⟩⟩
  · exact .trans hm hm' (fun p => (hfates p).1) (hfates' p).1
  · exact ((hfates p).2 hp).trans ((hfates' p).2 hp)

/-- Loads in one generation, with some registries on the trail. -/
def passage (l : Library) (extent : Library.Extent) (generation : Nat) (trail : List Location) :
    Passage Store where
  ok s t := s.generation = generation → Loads l extent trail [] s t
  err e s t := s.generation = generation → Loads l extent trail e.loads s t
  refl s _ := .refl trail s
  trans h h' hs := (h hs).trans (h' ((h hs).choose_spec.1.generation.trans hs))
  fail he s _ := he ▸ .refl trail s
  wrap h _ := h
  trans_err h h' hs := (h hs).trans (h' ((h hs).choose_spec.1.generation.trans hs))

variable {generation : Nat}

theorem passage_admits : (passage l extent generation trail).Admits where
  session s session _ := ⟨[], ⟨rfl, (List.append_nil _).symm, fun _ _ h => h⟩, rfl,
    fun _ => ⟨.untouched ⟨rfl, rfl⟩, fun _ => ⟨rfl, rfl⟩⟩⟩
  defaults s id c hs := by
    have hsame : ∀ p, (s.putDefaults id c).registry p = s.registry p := putDefaults_registry s id c
    refine ⟨[], ⟨putDefaults_generation s id c, ?_, .putDefaults s id c⟩, rfl, fun p => ?_⟩
    · rw [List.append_nil]
      exact putDefaults_trace s id c
    · exact ⟨.untouched ⟨rfl, hsame p⟩, fun _ => ⟨rfl, hsame p⟩⟩

/-- Loads are growth. -/
theorem growth_of_passage {x : StoreM α} (h : (passage l extent generation trail).Keeps x) :
    (growth generation).Keeps x := by
  refine h.mono (fun s t hok hs => ?_) fun _ _ _ _ => trivial
  obtain ⟨events, hm, -, hfates⟩ := hok hs
  exact ⟨hm.generation.trans hs, hm.defaults, Fate.settled (fun p => (hfates p).1) hm⟩

/-! ### One load -/

/-- The store in which the build of a registry begins. -/
def begun (s : Store) (mode : LoadMode) (p : Location) : Store :=
  (s.put { s.registry p with status := .loading }).say (.loading p ((s.registry p).modeFor mode))

/-- The build of a registry in a load from a store. -/
def buildFrom (l : Library) (extent : Library.Extent) (next : List Location → Location → StoreM Unit)
    (mode : LoadMode) (trail : List Location) (p : Location) (s : Store) : StoreM Contents :=
  ofBuild (build l extent (unlessCurrent s.generation (next (trail ++ [p]))) ((s.registry p).modeFor mode)
    (trail ++ [p]) p)

theorem effect_loadWith (next : List Location → Location → StoreM Unit) (mode : LoadMode) (s : Store) :
    effect (loadWith l extent next mode trail p) s =
      match effect (buildFrom l extent next mode trail p s) (begun s mode p) with
      | (.ok c, t) => (.ok (), t.put ⟨p, .loaded, s.generation, some ((s.registry p).modeFor mode), c⟩)
      | (.error e, t) =>
        (.error (.registryLoad p e), (t.put { s.registry p with status := .failed }).say (.failed p)) := by
  rcases hbuild : effect (buildFrom l extent next mode trail p s) (begun s mode p) with ⟨r, t⟩
  unfold buildFrom begun at hbuild
  unfold loadWith
  simp only [effect_bind, effect_get, effect_modify, effect_tryCatch, hbuild]
  cases r <;> rfl

/-- The start of a build is all that is said about other registries, and nothing is changed in them. -/
theorem begun_untouched (s : Store) (mode : LoadMode) (hq : q ≠ p) :
    Untouched s (begun s mode p) [.loading p ((s.registry p).modeFor mode)] q where
  silent := by simp [heard, LoadEvent.path, Ne.symm hq]
  same := registry_put_of_ne s (by rw [registry_path]; exact hq)

theorem begun_moved (s : Store) (mode : LoadMode) (p : Location) :
    Moved s (begun s mode p) [.loading p ((s.registry p).modeFor mode)] := ⟨rfl, rfl, fun _ _ h => h⟩

theorem begun_registry (s : Store) (mode : LoadMode) (p : Location) :
    (begun s mode p).registry p = { s.registry p with status := .loading } := by
  have := registry_put_self s { s.registry p with status := .loading }
  rw [registry_path] at this
  exact this

theorem begun_settled (mode : LoadMode) (p : Location) (h : s.Settled) : (begun s mode p).Settled := by
  intro q
  by_cases hq : q = p
  · subst hq
    rw [begun_registry]
    exact h q
  · rw [(begun_untouched s mode hq).same]
    exact h q

/-- The same for the end of a build that has failed. -/
def ended (s t : Store) (p : Location) : Store :=
  (t.put { s.registry p with status := .failed }).say (.failed p)

section Loading
variable {next : List Location → Location → StoreM Unit}

theorem buildFrom_keeps (mode : LoadMode) (s : Store)
    (hnext : ∀ q, q ∉ trail ++ [p] → (passage l extent s.generation (trail ++ [p])).Keeps
      (unlessCurrent s.generation (next (trail ++ [p])) q)) :
    (passage l extent s.generation (trail ++ [p])).Keeps (buildFrom l extent next mode trail p s) :=
  ofBuild_keeps (build_keeps passage_admits.suits (depend_keeps hnext) extent _ p)

/-- What a load's build has made is settled in the store that it leaves. -/
theorem buildFrom_settles {mode : LoadMode} {c : Contents}
    (hnext : ∀ q, q ∉ trail ++ [p] → (passage l extent s.generation (trail ++ [p])).Keeps
      (unlessCurrent s.generation (next (trail ++ [p])) q))
    (hbuild : effect (buildFrom l extent next mode trail p s) (begun s mode p) = (.ok c, t))
    (hs : (begun s mode p).Settled) : t.Settles c := by
  have hgrowth : ∀ q, q ∉ trail ++ [p] →
      (growth s.generation).Keeps (unlessCurrent s.generation (next (trail ++ [p])) q) :=
    fun q hq => growth_of_passage (hnext q hq)
  unfold buildFrom at hbuild
  obtain ⟨b, hbuilt, rfl⟩ := effect_ofBuild_eq_ok.mp hbuild
  have hready : Ready s.generation { store := begun s mode p } := ⟨rfl, hs⟩
  exact build_settles hgrowth hready hbuilt

/-- A load that succeeds: what its build has moved, and one more registry that is built. -/
theorem loads_of_built {room : Nat} {mode : LoadMode} {c : Contents}
    (hbuild : effect (buildFrom l extent (load l extent room .dependency) mode trail p s) (begun s mode p) =
      (.ok c, t))
    (hloads : Loads l extent (trail ++ [p]) [] (begun s mode p) t) (hp : p ∉ trail)
    (hnew : (s.registry p).isCurrent s.generation = false)
    (hsettles : (begun s mode p).Settled → t.Settles c) :
    Loads l extent trail [] s (t.put ⟨p, .loaded, s.generation, some ((s.registry p).modeFor mode), c⟩) := by
  obtain ⟨events, hm, hnone, hfates⟩ := hloads
  have hstart := begun_moved s mode p
  have hend : Moved t (t.put ⟨p, .loaded, s.generation, some ((s.registry p).modeFor mode), c⟩) [] :=
    ⟨rfl, (List.append_nil _).symm, fun _ _ h => h⟩
  refine ⟨_, (hstart.trans hm).trans hend, by rw [List.append_nil]; exact hnone, fun q => ?_⟩
  by_cases hq : q = p
  · subst hq
    obtain ⟨hsilent, _⟩ := (hfates q).2 (List.mem_append_right _ (List.mem_singleton_self q))
    refine ⟨?_, fun h => absurd h hp⟩
    refine .built ⟨room, s.generation, trail ++ [q], (s.registry q).modeFor mode, begun s mode q, t, c, hbuild⟩
      rfl hnew ?_ ⟨_, hstart.trace.symm⟩ (List.prefix_refl _) (fun _ _ h => h)
      (fun hs => hsettles (begun_settled mode q hs)) ?_
    · rw [heard_append, heard_append, hsilent]
      simp [heard, LoadEvent.path]
    · exact registry_put_self t ⟨q, .loaded, s.generation, _, c⟩
  · have hother : Untouched t (t.put ⟨p, .loaded, s.generation, some ((s.registry p).modeFor mode), c⟩) [] q :=
      ⟨rfl, registry_put_of_ne t hq⟩
    have hfirst := begun_untouched s mode hq
    refine ⟨?_, fun htrail => ?_⟩
    · exact ((hfates q).1.after hstart (begun_settled mode p) hfirst).before hend hother
    · exact (hfirst.trans ((hfates q).2 (List.mem_append_left _ htrail))).trans hother

/-- A load that fails: what its build has moved, and one more registry that has failed. -/
theorem loads_of_failed {mode : LoadMode} (hloads : Loads l extent (trail ++ [p]) blamed (begun s mode p) t)
    (hp : p ∉ trail) (hnew : (s.registry p).isCurrent s.generation = false) :
    Loads l extent trail (p :: blamed) s (ended s t p) := by
  obtain ⟨events, hm, hblamed, hfates⟩ := hloads
  have hstart := begun_moved s mode p
  have hend : Moved t (ended s t p) [.failed p] := ⟨rfl, rfl, fun _ _ h => h⟩
  refine ⟨_, (hstart.trans hm).trans hend, ⟨[], _, events, rfl, hblamed, rfl⟩, fun q => ?_⟩
  by_cases hq : q = p
  · subst hq
    obtain ⟨hsilent, _⟩ := (hfates q).2 (List.mem_append_right _ (List.mem_singleton_self q))
    refine ⟨.failed ((s.registry q).modeFor mode) (List.mem_cons_self ..) hnew ?_ ?_, fun h => absurd h hp⟩
    · rw [heard_append, heard_append, hsilent]
      simp [heard, LoadEvent.path]
    · have := registry_put_self t { s.registry q with status := .failed }
      rw [registry_path] at this
      exact this
  · have hother : Untouched t (ended s t p) [.failed p] q :=
      ⟨by simp [heard, LoadEvent.path, Ne.symm hq],
        registry_put_of_ne t (by rw [registry_path]; exact hq)⟩
    have hfirst := begun_untouched s mode hq
    refine ⟨?_, fun htrail => ?_⟩
    · exact (((hfates q).1.imp (List.mem_cons_of_mem p)).after hstart (begun_settled mode p) hfirst).before hend hother
    · exact (hfirst.trans ((hfates q).2 (List.mem_append_left _ htrail))).trans hother

theorem load_between_of (room : Nat) (mode : LoadMode) (s : Store)
    (hload : ∀ n, room = n + 1 → ∀ q, q ∉ trail ++ [p] → (passage l extent s.generation (trail ++ [p])).Keeps
      (unlessCurrent s.generation (load l extent n .dependency (trail ++ [p])) q))
    (hp : p ∉ trail) (hnew : (s.registry p).isCurrent s.generation = false) :
    (passage l extent s.generation trail).Between s (effect (load l extent room mode trail p) s).1
      (effect (load l extent room mode trail p) s).2 := by
  cases room with
  | zero =>
    rw [load_zero]
    exact (passage l extent s.generation trail).fail rfl s
  | succ room =>
    have hkeeps := buildFrom_keeps mode s (hload room rfl)
    rw [load_succ, effect_loadWith]
    rcases hbuild : effect (buildFrom l extent (load l extent room .dependency) mode trail p s) (begun s mode p)
      with ⟨r, t⟩
    cases r with
    | error e => exact fun _ => loads_of_failed (hkeeps.of_error hbuild rfl) hp hnew
    | ok c =>
      have hsettles := buildFrom_settles (hload room rfl) hbuild
      exact fun _ => loads_of_built hbuild (hkeeps.of_ok hbuild rfl) hp hnew hsettles

theorem effect_unlessCurrent (generation : Nat) (x : Location → StoreM Unit) (s : Store) :
    effect (unlessCurrent generation x p) s =
      if (s.registry p).isCurrent generation then (.ok (), s) else effect (x p) s := by
  unfold unlessCurrent
  rw [effect_bind, effect_get]
  by_cases h : (s.registry p).isCurrent generation = true
  · rw [if_pos h]
    simp only [h, if_true]
    rfl
  · rw [if_neg h]
    simp only [h]
    rfl

/-- Loading whatever is not current moves the store as loads do. -/
theorem unlessCurrent_keeps (room : Nat) (mode : LoadMode) (hp : p ∉ trail) :
    (passage l extent generation trail).Keeps (unlessCurrent generation (load l extent room mode trail) p) := by
  induction room using Nat.strongRecOn generalizing mode trail p with
  | _ room ih =>
    refine ⟨fun s => ?_⟩
    rw [effect_unlessCurrent]
    by_cases hs : s.generation = generation
    · subst hs
      split
      · exact (passage l extent s.generation trail).refl s
      · rename_i hnew
        refine load_between_of room mode s (fun n hn q hq => ?_) hp (Bool.eq_false_iff.mpr hnew)
        exact ih n (by omega) .dependency hq
    · -- The passage speaks of one generation only.
      split
      · exact (passage l extent generation trail).refl s
      · cases (effect (load l extent room mode trail p) s).1 with
        | error e => exact fun h => absurd h hs
        | ok a => exact fun h => absurd h hs

variable (l extent) in
/-- What a load does to the store, from wherever its registry is not current. -/
theorem load_between (room : Nat) (mode : LoadMode) (s : Store) (hp : p ∉ trail)
    (hnew : (s.registry p).isCurrent s.generation = false) :
    (passage l extent s.generation trail).Between s (effect (load l extent room mode trail p) s).1
      (effect (load l extent room mode trail p) s).2 :=
  load_between_of room mode s (fun n _ _ hq => unlessCurrent_keeps n .dependency hq) hp hnew

end Loading

end Load

end Bitpress
