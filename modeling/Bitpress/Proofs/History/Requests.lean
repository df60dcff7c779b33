import Bitpress.Proofs.Files
import Bitpress.Proofs.History.Load
import Bitpress.Proofs.Load.AllOrNothing

/-!
What a request finds does not depend on the requests before it, but for one thing.

A registry that was loaded in full is loaded in full from then on, also as an
import, so that targets which were there stay there. The registry that imports it
takes over its targets. Two histories after which the same imports were loaded in
full lead to the same outcome of the next request (`get_same_of_got`).
-/

namespace Bitpress

open Likeness

namespace Load

variable {l : Library} {extent : Library.Extent} {trail : List Location} {p q : Location} {s t : Store}

/-! ### What was loaded in full -/

/-- The same registries were loaded in full. -/
def fullness : Passage Store where
  ok s t := ∀ q, (t.registry q).mode = some .full ↔ (s.registry q).mode = some .full
  err _ s t := ∀ q, (t.registry q).mode = some .full ↔ (s.registry q).mode = some .full
  refl _ _ := Iff.rfl
  trans h h' q := (h' q).trans (h q)
  fail _ _ _ := Iff.rfl
  wrap h _ := h
  trans_err h h' q := (h' q).trans (h q)

theorem fullness_admits : fullness.Admits where
  session _ _ _ := Iff.rfl
  defaults s id c q := by rw [Store.putDefaults_registry]

theorem begun_full (mode : LoadMode) : fullness.ok s (begun s mode p) := by
  intro q
  by_cases hq : q = p
  · subst hq
    rw [begun_registry]
  · rw [(begun_untouched s mode hq).same]

/-- A build may load any other registry, but as a dependency. -/
theorem buildFrom_full {next : List Location → Location → StoreM Unit}
    (hnext : ∀ q, fullness.Keeps (next (trail ++ [p]) q)) (mode : LoadMode) (s : Store) :
    fullness.Keeps (buildFrom l extent next mode trail p s) := by
  refine ofBuild_keeps (build_keeps fullness_admits.suits (depend_keeps fun q _ => ⟨fun u => ?_⟩) extent _ p)
  rw [effect_unlessCurrent]
  split
  · exact fullness.refl u
  · exact (hnext q).between u

/-- A load in a mode leaves the registry as one that was loaded in full if it is loaded in that mode or
was so before. -/
theorem loadWith_full {next : List Location → Location → StoreM Unit}
    (hnext : ∀ q, fullness.Keeps (next (trail ++ [p]) q)) (mode : LoadMode) (s : Store) (q : Location) :
    ((effect (loadWith l extent next mode trail p) s).2.registry q).mode = some .full ↔
      (s.registry q).mode = some .full ∨
        (q = p ∧ mode = .full ∧ (effect (loadWith l extent next mode trail p) s).1 = .ok ()) := by
  have hkeeps : fullness.Keeps (buildFrom l extent next mode trail p s) := buildFrom_full hnext mode s
  have hstart := begun_full (s := s) (p := p) mode
  rw [effect_loadWith]
  rcases hbuild : effect (buildFrom l extent next mode trail p s) (begun s mode p) with ⟨r, t⟩
  cases r with
  | error e =>
    have hkept := fullness.trans_err hstart (hkeeps.of_error hbuild)
    have hself := Store.registry_put_self t { s.registry p with status := .failed }
    rw [Store.registry_path] at hself
    simp only [reduceCtorEq, and_false, or_false, Store.say_registry]
    by_cases hq : q = p
    · subst hq
      rw [hself]
    · rw [Store.registry_put_of_ne t (by rw [Store.registry_path]; exact hq)]
      exact hkept q
  | ok c =>
    have hkept := fullness.trans hstart (hkeeps.of_ok hbuild)
    dsimp only
    by_cases hq : q = p
    · subst hq
      rw [Store.registry_put_self t ⟨q, .loaded, s.generation, some ((s.registry q).modeFor mode), c⟩]
      unfold Registry.modeFor
      split <;> simp_all
    · rw [Store.registry_put_of_ne t hq, hkept q]
      simp [hq]

theorem load_dependency_full (room : Nat) : fullness.Keeps (load l extent room .dependency trail p) := by
  induction room generalizing trail p with
  | zero =>
    rw [load_zero]
    exact .throw rfl
  | succ room ih =>
    refine ⟨fun s => ?_⟩
    rw [load_succ]
    have hload : ∀ q, ((effect (loadWith l extent (load l extent room .dependency) .dependency trail p) s).2.registry
        q).mode = some .full ↔ _ := loadWith_full (fun q => ih) .dependency s
    cases (effect (loadWith l extent (load l extent room .dependency) .dependency trail p) s).1 <;>
      exact fun q => (hload q).trans (by simp)

end Load

namespace Store

variable {l : Library} {p q : Location} {s t : Store}

/-- Requests for registries, one after the other. -/
def visited (l : Library) (s : Store) (paths : List Location) : Store :=
  paths.foldl (fun s p => (Call.get l p).after s) s

/-- One of the requests has found the registry of a file. -/
def Got (l : Library) (s : Store) (paths : List Location) (q : Location) : Prop :=
  ∃ before p rest, paths = before ++ p :: rest ∧ l.locate p = .ok q ∧
    (effect (get l p) (visited l s before)).1.toOption.isSome

theorem got_cons {paths : List Location} : Got l s (p :: paths) q ↔
    (l.locate p = .ok q ∧ (effect (get l p) s).1.toOption.isSome) ∨ Got l ((Call.get l p).after s) paths q := by
  constructor
  · rintro ⟨before, p', rest, hpaths, hlocate, hget⟩
    cases before with
    | nil =>
      cases hpaths
      exact .inl ⟨hlocate, hget⟩
    | cons first before =>
      cases hpaths
      exact .inr ⟨before, p', rest, rfl, hlocate, hget⟩
  · rintro (⟨hlocate, hget⟩ | ⟨before, p', rest, hpaths, hlocate, hget⟩)
    · exact ⟨[], p, paths, rfl, hlocate, hget⟩
    · exact ⟨p :: before, p', rest, by rw [hpaths]; rfl, hlocate, hget⟩

theorem not_got_nil : ¬ Got l s [] q := by
  rintro ⟨before, _, _, hpaths, _⟩
  cases before <;> cases hpaths

/-- A request makes the registry that it finds one that was loaded in full. -/
theorem after_full : (((Call.get l p).after s).registry q).mode = some .full ↔
    (l.locate p = .ok q ∧ (effect (get l p) s).1.toOption.isSome) ∨ (s.registry q).mode = some .full := by
  show ((effect (get l p) s).2.registry q).mode = _ ↔ _
  cases hlocate : l.locate p with
  | error e => rw [effect_get_of_error hlocate]; simp
  | ok found =>
    have hload : ((effect (Load.loadWith l l.extent (Load.load l l.extent l.extent.files .dependency) .full [] found)
        s.renewed).2.registry q).mode = some .full ↔ _ :=
      Load.loadWith_full (fun q => Load.load_dependency_full l.extent.files) .full s.renewed q
    rw [← Load.load_succ, ← effect_reload] at hload
    rw [effect_get_locate hlocate]
    revert hload
    have hrenewed : (s.renewed.registry q).mode = some .full ↔ (s.registry q).mode = some .full := Iff.rfl
    rcases effect (reload l found) s with ⟨e | _, t⟩ <;> intro hload <;> dsimp only at hload ⊢ <;>
      rw [hload, hrenewed]
    · simp [Except.toOption]
    · simp only [Except.ok.injEq, and_true]
      rw [or_comm, eq_comm]
      simp [Except.toOption]

/-- The registries that were loaded in full are those that requests have found. -/
theorem visited_full (paths : List Location) : ((visited l s paths).registry q).mode = some .full ↔
    Got l s paths q ∨ (s.registry q).mode = some .full := by
  induction paths generalizing s with
  | nil => exact (or_iff_right not_got_nil).symm
  | cons p rest ih =>
    show ((visited l ((Call.get l p).after s) rest).registry q).mode = _ ↔ _
    rw [ih, after_full, got_cons, or_left_comm, or_assoc]

end Store

/-! ### Two requests -/

/-- A text that is not read as one of the first `n` identities that are given out. -/
def ElementId.Unnamed (n : Nat) (text : String) : Prop :=
  ∀ id, read? (Text.trim text) = some id → id.value < firstFresh ∨ firstFresh + n ≤ id.value

/-- No declaration of the library names one of the first `n` identities that are given out. -/
def Library.Plain (l : Library) (n : Nat) : Prop :=
  ∀ p d, l.document p = .ok d → d.AllTexts (ElementId.Unnamed n)

theorem Library.Plain.fixed {l : Library} {n : Nat} (hl : l.Plain n) {R : Bitpress.Runs}
    (h : R.shift = 0 ∨ R.last + R.shift ≤ n) : ∀ p d, l.document p = .ok d → d.AllTexts R.Fixed := by
  refine fun p d hd => (hl p d hd).imp fun text ht id hid => ?_
  show ElementId.advance R.first R.last R.shift id = id
  rcases h with h | h
  · rw [h, ElementId.advance_zero]
  · refine ElementId.advance_outside ((ht id hid).imp (fun h => ?_) fun h' => ?_) <;> omega

namespace Store

variable {l : Library} {p q : Location} {s t : Store} {n : Nat}

/-- No load is under way, and nothing is remembered of identities that are not given out. -/
structure Rested (s : Store) : Prop extends Calm s where
  given : ∀ id v, s.defaults? id = some v → id.value < ElementId.firstFresh + s.session.identities

/-- A request loads a registry. -/
def Needs (l : Library) (p : Location) (s : Store) (q : Location) : Prop :=
  ∃ mode, .loading q mode ∈ (effect (get l p) s).2.trace.drop s.trace.length

/-- Loads of a registry in two stores. -/
def runs (l : Library) (p : Location) (s t : Store) : Runs where
  shift := t.session.identities - s.session.identities
  first := s.session.identities
  last := (effect (reload l p) s).2.session.identities
  choices := (effect (reload l p) s).2.session.choices
  left := s.renewed.generation
  right := t.renewed.generation
  root := p
  touched q := ∃ mode, .loading q mode ∈ (effect (reload l p) s).2.trace.drop s.trace.length
  told := s.trace.length

theorem not_spent_runs : ¬ (runs l p s t).Spent (effect (reload l p) s).2 := by
  rintro ((h | h) | ⟨q, mode, hq, h⟩)
  · exact Nat.lt_irrefl _ h
  · exact Nat.lt_irrefl _ h
  · exact h ⟨mode, hq⟩

theorem loads_runs (hfixed : ∀ file d, l.document file = .ok d → d.AllTexts (runs l p s t).Fixed) :
    (runs l p s t).Loads p (Load.load l l.extent (l.extent.files + 1) .full [] p)
      (Load.load l l.extent (l.extent.files + 1) .full [] p) :=
  Load.load_loads hfixed _ (fun _ => rfl) (List.mem_singleton_self p)

/-- Identities are not taken back. -/
theorem identities_le_reload (hl : l.Plain n) (p : Location) (s : Store) :
    s.session.identities ≤ (effect (reload l p) s).2.session.identities := by
  refine Nat.le_of_not_lt fun hlt => not_spent_runs (l := l) (p := p) (s := s) (t := s) ?_
  have hloads := loads_runs (p := p) (hl.fixed (R := runs l p s s) (.inl (Nat.sub_self _)))
  exact hloads.spent s.renewed (.inl (.inr hlt))

/-- Neither store remembers anything of an identity that the loads give out. -/
theorem Rested.defaults_of_young (hs : s.Rested) (ht : t.Rested) (hle : s.session.identities ≤ t.session.identities)
    {id : ElementId} (hyoung : (runs l p s t).Young id) :
    s.defaults? id = none ∧ t.defaults? ((runs l p s t).rename id) = none := by
  have hfirst : ElementId.firstFresh + s.session.identities ≤ id.value := hyoung.1
  refine ⟨Option.eq_none_iff_forall_ne_some.mpr fun v hv => ?_, Option.eq_none_iff_forall_ne_some.mpr fun v hv => ?_⟩
  · exact Nat.not_lt_of_le hfirst (hs.given id v hv)
  · have hgiven := ht.given _ v hv
    rw [hyoung.rename_eq] at hgiven
    have hbound : id.value + (t.session.identities - s.session.identities) <
        ElementId.firstFresh + t.session.identities := hgiven
    omega

/-- Loads of a registry in two stores end alike, if the stores agree in which of the registries that
the first one loads were loaded in full. -/
theorem reload_ends (hs : s.Rested) (ht : t.Rested) (hl : l.Plain n)
    (hn : s.session.identities = t.session.identities ∨
      (effect (reload l p) s).2.session.identities + (t.session.identities - s.session.identities) ≤ n)
    (hle : s.session.identities ≤ t.session.identities)
    (hwords : ∀ k, s.session.choices + k < (effect (reload l p) s).2.session.choices →
      s.session.entropy (s.session.choices + k) = t.session.entropy (t.session.choices + k))
    (hfull : ∀ q, q ≠ p → (runs l p s t).touched q →
      ((s.registry q).mode = some .full ↔ (t.registry q).mode = some .full)) :
    ((runs l p s t).stores [p]).Ends .same (effect (reload l p) s) (effect (reload l p) t) := by
  have hids := identities_le_reload hl p s
  have hstart : (runs l p s t).Stores [] s.renewed t.renewed := by
    refine ⟨⟨Nat.le_refl _, (Nat.add_sub_of_le hle).symm, hwords⟩, Nat.le_refl _, rfl, rfl, hfull, fun q => ?_,
      fun q hq => ?_, fun id hyoung => ?_, fun id v hv => ?_, fun q hq => (by cases hq)⟩
    · exact (ht.not_current q).trans (hs.not_current q).symm
    · rw [show (s.renewed.registry q).isCurrent (runs l p s t).left = false from hs.not_current q] at hq
      cases hq
    · show t.defaults? _ = (s.defaults? id).map _
      obtain ⟨hnone, hnone'⟩ := hs.defaults_of_young ht hle hyoung
      rw [hnone, hnone']
      rfl
    · exact Nat.lt_of_lt_of_le (hs.given id v hv) (Nat.add_le_add_left hids _)
  have hshift : (runs l p s t).shift = 0 ∨ (runs l p s t).last + (runs l p s t).shift ≤ n :=
    hn.imp (fun h => show t.session.identities - s.session.identities = 0 by omega) id
  exact (loads_runs (hl.fixed hshift)).ends [] s.renewed t.renewed hstart (hs.not_current p) not_spent_runs

theorem Rested.reload (hs : s.Rested) (hl : l.Plain n) (p : Location) : (effect (reload l p) s).2.Rested := by
  have hends := reload_ends (p := p) hs hs hl (.inl rfl) (Nat.le_refl _) (fun _ _ => rfl) fun _ _ _ => Iff.rfl
  have hknown : (runs l p s s).Known (effect (Store.reload l p) s).2 := by
    revert hends
    rcases effect (Store.reload l p) s with ⟨_ | _, u⟩
    · exact id
    · exact fun h => h.2.2.known
  exact ⟨hs.toCalm.after (.reload l p), hknown⟩

theorem Rested.get (hs : s.Rested) (hl : l.Plain n) (p : Location) : ((Call.get l p).after s).Rested := by
  show (effect (Store.get l p) s).2.Rested
  cases hlocate : l.locate p with
  | error e =>
    rw [effect_get_of_error hlocate]
    exact hs
  | ok found =>
    rw [effect_get_of_ok hlocate]
    exact hs.reload hl found

theorem Rested.visited (hs : s.Rested) (hl : l.Plain n) (paths : List Location) : (visited l s paths).Rested := by
  induction paths generalizing s with
  | nil => exact hs
  | cons p rest ih => exact ih (hs.get hl p)

theorem rested_start (session : Session) : Rested { session } :=
  ⟨(Reachable.start session).calm, fun id v hv => by cases hv⟩

/-- What is shown, under other identities. -/
def renamedShown (f : ElementId → ElementId) (x : Contents × List (Option Context)) :
    Contents × List (Option Context) :=
  (x.1.rename f, x.2.map (Option.map (Context.rename f)))

/-- Two requests both fail, or find registries of which the second shows what the first does under
other identities. -/
def Renames (f : ElementId → ElementId) : Outcome Registry × Store → Outcome Registry × Store → Prop
  | (.ok r, s), (.ok r', t) => t.shown r'.contents = renamedShown f (s.shown r.contents)
  | (.error _, _), (.error _, _) => True
  | _, _ => False

/-- Two requests both fail, or find registries that show the same but for the identities. -/
def SameFound : Outcome Registry × Store → Outcome Registry × Store → Prop
  | (.ok r, s), (.ok r', t) => ∃ f g : ElementId → ElementId, Function.Injective f ∧ Function.Injective g ∧
      renamedShown f (s.shown r.contents) = renamedShown g (t.shown r'.contents)
  | (.error _, _), (.error _, _) => True
  | _, _ => False

theorem Renames.same {f g : ElementId → ElementId} (hf : Function.Injective f) (hg : Function.Injective g)
    {x y z : Outcome Registry × Store} (hx : Renames f x z) (hy : Renames g y z) : SameFound x y := by
  rcases x with ⟨_ | r, s⟩ <;> rcases y with ⟨_ | r', t⟩ <;> rcases z with ⟨_ | r'', u⟩ <;> try trivial
  exact ⟨f, g, hf, hg, hx.symm.trans hy⟩

theorem SameFound.targets_length {x y : Outcome Registry × Store} (h : SameFound x y) :
    (x.1.toOption.map fun r => r.contents.targets.items.length) =
      y.1.toOption.map fun r => r.contents.targets.items.length := by
  rcases x with ⟨_ | r, s⟩ <;> rcases y with ⟨_ | r', t⟩
  · rfl
  · cases h
  · cases h
  · obtain ⟨f, g, _, _, hsame⟩ := h
    have htargets := congrArg (fun shown => shown.1.targets.items.length) hsame
    simp only [renamedShown, shown, Contents.rename, Collection.map, List.length_map] at htargets
    exact congrArg some htargets

/-- Registries that end up alike show the same. -/
theorem shown_of_stores {R : Runs} {held : List Location} (h : R.Stores held s t)
    (hp : (s.registry p).isCurrent R.left = true) : t.exposed p = renamedShown R.rename (s.exposed p) := by
  obtain ⟨hcontents, hgood⟩ := h.contents p hp
  unfold exposed shown
  rw [hcontents]
  refine Prod.ext rfl ?_
  show (List.map (Bit.rename R.rename) _).map _ = (List.map _ _).map _
  rw [List.map_map, List.map_map]
  exact List.map_congr_left fun b hb => h.defaults b.info.id (hgood.bits b hb).1

theorem get_renames (hs : s.Rested) (ht : t.Rested) (hl : l.Plain n)
    (hn : s.session.identities = t.session.identities ∨
      (effect (get l p) s).2.session.identities + (t.session.identities - s.session.identities) ≤ n)
    (hle : s.session.identities ≤ t.session.identities)
    (hwords : ∀ k, s.session.choices + k < (effect (get l p) s).2.session.choices →
      s.session.entropy (s.session.choices + k) = t.session.entropy (t.session.choices + k))
    (hfull : ∀ q, l.locate p ≠ .ok q → Needs l p s q →
      ((s.registry q).mode = some .full ↔ (t.registry q).mode = some .full)) :
    ∃ f, Function.Injective f ∧ Renames f (effect (get l p) s) (effect (get l p) t) := by
  cases hlocate : l.locate p with
  | error e =>
    refine ⟨id, Function.injective_id, ?_⟩
    unfold get
    rw [hlocate]
    trivial
  | ok found =>
    have hafter := effect_get_of_ok hlocate s
    rw [hafter] at hn hwords
    have hfull : ∀ q, q ≠ found → (runs l found s t).touched q →
        ((s.registry q).mode = some .full ↔ (t.registry q).mode = some .full) := by
      refine fun q hq htouched => hfull q (fun h => hq ?_) ?_
      · exact (Except.ok.inj (hlocate.symm.trans h)).symm
      · obtain ⟨mode, hmode⟩ := htouched
        exact ⟨mode, by rw [hafter]; exact hmode⟩
    have hends := reload_ends hs ht hl hn hle hwords hfull
    refine ⟨(runs l found s t).rename, (runs l found s t).rename_injective, ?_⟩
    rw [effect_get_locate hlocate, effect_get_locate hlocate]
    revert hends
    rcases effect (reload l found) s with ⟨_ | _, s'⟩ <;> rcases effect (reload l found) t with ⟨_ | _, t'⟩
    · exact fun _ => trivial
    · exact False.elim
    · exact False.elim
    · exact fun h => shown_of_stores h.2.2 (h.2.2.held found (List.mem_singleton_self _))

/-- After two histories, a request for a registry has the same outcome if the histories have found the
same ones of the registries that the request loads besides the one that it asks for. -/
theorem get_same_of_got (l : Library) (σ τ : Session) (paths paths' : List Location) (p : Location)
    (hplain : l.Plain ((effect (get l p) (visited l { session := σ } paths)).2.session.identities +
      (effect (get l p) (visited l { session := τ } paths')).2.session.identities))
    (hcertain : (effect (get l p) (visited l { session := σ } paths)).2.session.choices =
      (visited l { session := σ } paths).session.choices)
    (hgot : ∀ q, l.locate p ≠ .ok q → Needs l p (visited l { session := σ } paths) q →
      (Got l { session := σ } paths q ↔ Got l { session := τ } paths' q)) :
    SameFound (effect (get l p) (visited l { session := σ } paths))
      (effect (get l p) (visited l { session := τ } paths')) := by
  have hs : (visited l { session := σ } paths).Rested := (rested_start σ).visited hplain paths
  have ht : (visited l { session := τ } paths').Rested := (rested_start τ).visited hplain paths'
  have hfull : ∀ q, l.locate p ≠ .ok q → Needs l p (visited l { session := σ } paths) q →
      (((visited l { session := σ } paths).registry q).mode = some .full ↔
        ((visited l { session := τ } paths').registry q).mode = some .full) := by
    intro q hq hneeds
    have hfresh : ∀ session : Session, (({ session } : Store).registry q).mode ≠ some .full := fun _ h => by cases h
    rw [visited_full, visited_full, or_iff_left (hfresh σ), or_iff_left (hfresh τ)]
    exact hgot q hq hneeds
  revert hs ht hfull hplain hcertain
  generalize visited l { session := σ } paths = s
  generalize visited l { session := τ } paths' = t
  intro hplain hcertain hs ht hfull
  -- Both are compared with the second store, as if it had given out as many identities as the first.
  let u : Store := { t with session := { t.session with
    identities := max s.session.identities t.session.identities } }
  have hle : s.session.identities ≤ u.session.identities ∧ t.session.identities ≤ u.session.identities :=
    ⟨Nat.le_max_left .., Nat.le_max_right ..⟩
  have hu : u.Rested := ⟨⟨ht.idle, ht.past, ht.settled⟩, fun id v hv =>
    Nat.lt_of_lt_of_le (ht.given id v hv) (Nat.add_le_add_left hle.2 _)⟩
  have hgrown : ∀ s : Store, s.session.identities ≤ (effect (get l p) s).2.session.identities := by
    intro s
    cases hlocate : l.locate p with
    | error e => exact Nat.le_of_eq (by rw [effect_get_of_error hlocate])
    | ok found =>
      rw [effect_get_of_ok hlocate]
      exact identities_le_reload hplain found s
  have hids : u.session.identities = max s.session.identities t.session.identities := rfl
  obtain ⟨f, hf, hsu⟩ := get_renames (p := p) hs hu hplain
    (by have := hgrown s; have := hgrown t; omega) hle.1 (fun k hk => by omega) hfull
  obtain ⟨g, hg, htu⟩ := get_renames (p := p) ht hu hplain
    (by have := hgrown s; have := hgrown t; omega) hle.2 (fun _ _ => rfl) fun _ _ _ => Iff.rfl
  exact hsu.same hf hg htu

namespace Shelf

/-- The declarations of the shelf have no texts that queries could read. -/
theorem plain_whole (n : Nat) : whole.Plain n := by
  intro p d hd
  obtain ⟨format, route, text, _, hmem, hread⟩ := Library.read_of_document hd
  have htext : text = "imports:\n- registry: b.yml\nbits:\n- name: x\n  src: X\n" ∨
      text = "bits:\n- name: y\n  src: one\n" := by
    have hfiles : whole.files.files [] = [(["a.yml"], .text "imports:\n- registry: b.yml\nbits:\n- name: x\n  src: X\n"),
      (["b.yml"], .text "bits:\n- name: y\n  src: one\n")] := rfl
    rw [hfiles] at hmem
    simp only [List.mem_cons, Prod.mk.injEq, FileContent.text.injEq, List.not_mem_nil, or_false] at hmem
    exact hmem.imp And.right And.right
  have hbare : ((Document.readTree format text).bind (Document.ofTree {})).toOption.all (fun d =>
      d.targets.isEmpty && d.bits.all fun b => b.defaults.isEmpty && b.presets.isEmpty) = true := by
    rcases htext with rfl | rfl <;> cases format <;> decide +kernel
  rw [show (Document.ofTree {}) = Document.ofTree whole.config.vars from rfl, hread] at hbare
  simp only [Except.toOption, Option.all_some, Bool.and_eq_true, List.isEmpty_iff, List.all_eq_true] at hbare
  refine ⟨fun b hb => ?_, fun t ht => ?_⟩
  · obtain ⟨hdefaults, hpresets⟩ := hbare.2 b hb
    exact ⟨by rw [hdefaults]; exact .nil, by rw [hpresets]; exact fun _ h => by cases h⟩
  · rw [hbare.1] at ht
    cases ht

/-- A registry with a target, and one that imports it. -/
def offering : Library := library "targets:\n- name: t\n  template: t.tex\n" "imports:\n- registry: a.yml\n"

end Shelf

/-- The import was loaded in full, before or after another request. -/
theorem get_same_of_got_whole :
    SameFound (effect (get Shelf.whole Shelf.a) (visited Shelf.whole {} [Shelf.b, Shelf.a]))
      (effect (get Shelf.whole Shelf.a) (visited Shelf.whole { session := { identities := 7 } } [Shelf.b])) := by
  refine get_same_of_got Shelf.whole {} { identities := 7 } [Shelf.b, Shelf.a] [Shelf.b] Shelf.a (Shelf.plain_whole _)
    (by decide +kernel) fun q hq _ => ?_
  have hb : (effect (get Shelf.whole Shelf.b) {}).1.toOption.isSome ∧
      (effect (get Shelf.whole Shelf.b) { session := { identities := 7 } }).1.toOption.isSome := by decide +kernel
  have hother : ¬ Shelf.whole.locate Shelf.a = .ok q := hq
  simp only [got_cons, hother, hb.1, hb.2, not_got_nil, false_and, and_true, or_false]

/-- A registry that was loaded in full passes its targets on to the next one that imports it; one that
was not passes none on. -/
theorem get_differs_after_full :
    let s := visited Shelf.offering {} [Shelf.a]
    let t := visited Shelf.offering {} []
    (effect (get Shelf.offering Shelf.b) s).2.session.choices = 0 ∧
      (effect (get Shelf.offering Shelf.b) t).2.session.choices = 0 ∧
      ¬ SameFound (effect (get Shelf.offering Shelf.b) s) (effect (get Shelf.offering Shelf.b) t) := by
  refine ⟨by decide +kernel, by decide +kernel, fun h => ?_⟩
  have htargets := h.targets_length
  revert htargets
  decide +kernel

end Store

end Bitpress
