import Bitpress.Load
import Bitpress.Proofs.Absorb
import Bitpress.Proofs.Inheritance.Source
import Bitpress.Proofs.Resolution
import Bitpress.Proofs.Steady
import Bitpress.Proofs.Store

/-!
What building a registry does.

A passage that takes changes of the session and new defaults, and that is kept
where other registries are loaded, is kept by the whole build (`build_keeps`); it
may speak of the store alone, where it has to be kept by every load off the trail
(`depend_keeps`).

A build that succeeds has resolved the defaults of every bit it shows: those of
its own bits itself, and those of imported bits by the loads before.
-/

namespace Bitpress.Load

open Passage

variable {α : Type} {P : Passage Store} {fetch : Location → StoreM Unit} {trail : List Location} {l : Library}
  {r : Resolver}

theorem effect_ofBuild (x : Build α) (s : Store) :
    effect (ofBuild x) s = ((effect x { store := s }).1, (effect x { store := s }).2.store) := by
  unfold ofBuild
  rw [effect_bind, effect_get]
  change effect (do set (x { store := s }).2.store; _) s = ((x { store := s }).1, (x { store := s }).2.store)
  rw [effect_bind, effect_set]
  dsimp only
  cases (x { store := s }).1 <;> rfl

theorem effect_ofBuild_eq_ok {x : Build α} {s t : Store} {a : α} :
    effect (ofBuild x) s = (.ok a, t) ↔ ∃ b, effect x { store := s } = (.ok a, b) ∧ b.store = t := by
  rw [effect_ofBuild]
  rcases effect x { store := s } with ⟨r, b⟩
  constructor
  · intro h
    cases h
    exact ⟨b, rfl, rfl⟩
  · rintro ⟨_, h, rfl⟩
    cases h
    rfl

theorem ofBuild_keeps {x : Build α} (hx : P.onStore.Keeps x) : P.Keeps (ofBuild x) := by
  refine ⟨fun s => ?_⟩
  rw [effect_ofBuild]
  rcases h : effect x { store := s } with ⟨r, b⟩
  cases r with
  | error e => exact hx.of_error h
  | ok a => exact hx.of_ok h

theorem checkCycle_eq_ok {p : Location} : checkCycle trail p = .ok () ↔ p ∉ trail := by
  unfold checkCycle
  cases h : trail.findIdx? (· == p) with
  | none =>
    have hnone := List.findIdx?_eq_none_iff.mp h
    exact ⟨fun _ hp => (by simpa using hnone p hp), fun _ => rfl⟩
  | some i =>
    obtain ⟨hlt, hsame, _⟩ := List.findIdx?_eq_some_iff_getElem.mp h
    refine ⟨fun he => (by cases he), fun hp => absurd ?_ hp⟩
    rw [← eq_of_beq hsame]
    exact List.getElem_mem hlt

theorem checkCycle_fails (p : Location) : Outcome.Fails Error.Blameless (checkCycle trail p) := by
  unfold checkCycle
  split
  · exact .error rfl
  · exact .ok _

/-- What a build does where it depends on another registry. -/
theorem effect_depend (p : Location) (b : Building) :
    effect (depend fetch trail p) b =
      if b.dependencies.contains p then (.ok (b.store.registry p).contents, b)
      else match checkCycle trail p with
        | .error e => (.error e, b)
        | .ok _ => match effect (fetch p) b.store with
          | (.ok _, s) => (.ok (s.registry p).contents, { b with store := s, dependencies := b.dependencies ++ [p] })
          | (.error e, s) => (.error e, { b with store := s }) := by
  have honce : effect (loadOnce fetch trail p) b = effect (if b.dependencies.contains p then pure () else do
      Build.ofOutcome (checkCycle trail p)
      Build.onStore (fetch p)
      modifyThe Building fun b => { b with dependencies := b.dependencies ++ [p] }) b := by
    unfold loadOnce
    rw [effect_bind, effect_get]
  unfold depend
  rw [effect_bind, honce]
  by_cases hthere : b.dependencies.contains p = true
  · rw [if_pos hthere, if_pos hthere]
    rfl
  · rw [if_neg hthere, if_neg hthere, effect_bind, Build.effect_ofOutcome]
    cases checkCycle trail p with
    | error e => rfl
    | ok _ =>
      dsimp only
      rw [effect_bind, Build.effect_onStore]
      rcases effect (fetch p) b.store with ⟨_ | _, s⟩ <;> rfl

theorem loadOnce_keeps (hfetch : ∀ p, p ∉ trail → P.Keeps (fetch p)) (p : Location) :
    P.onStore.Keeps (loadOnce fetch trail p) := by
  refine .bind .get fun b => ?_
  split
  · exact .pure _
  · refine .ofOutcome_bind (checkCycle_fails p) fun _ hcycle => ?_
    refine .bind (.onStore (hfetch p (checkCycle_eq_ok.mp hcycle))) fun _ => ?_
    exact .modify fun b => P.refl b.store

theorem depend_keeps (hfetch : ∀ p, p ∉ trail → P.Keeps (fetch p)) (p : Location) :
    P.onStore.Keeps (depend fetch trail p) :=
  .bind (loadOnce_keeps hfetch p) fun _ => .bind .get fun _ => .pure _

theorem push_fails [Element α] (c : Collection α) (a : α) : Outcome.Fails Error.Blameless (c.push a) := by
  unfold Collection.push
  split
  · exact .error rfl
  · exact .ok _

/-- What a resolver gives and leaves of a target is what the build goes on with. -/
theorem effect_specOf {targets : Nat} {d : RegistryDocument} {memo : Inheritance.Memo} {decl : TargetDecl}
    {b c : Building} {result : Outcome TargetSpec} {v : Inheritance.Visit}
    (h : (Inheritance.specOf (targetSource r d) (targets + 1) r.path decl).at { memo } b = ((result, v), c)) :
    effect (specOf r targets d memo decl) b = (result.map fun spec => (spec, v.memo), c) := by
  show (let out := (Inheritance.specOf (targetSource r d) (targets + 1) r.path decl).at { memo } b
    (out.1.1.map fun spec => (spec, out.1.2.memo), out.2)) = _
  rw [h]

/-! ### Declared elements and targets

A passage of buildings is kept by what is made of declarations if it takes the
steps of the session that this needs, the loads, and the queries of targets. -/

section Declared
variable {Q : Passage Building}

theorem elementsOf_keeps {α δ : Type} [Element α] {make : δ → Press α}
    (hmake : ∀ decl, Q.Keeps (Build.press (make decl))) (decls : List δ) : Q.Keeps (elementsOf make decls) := by
  unfold elementsOf
  exact .foldlM (fun c decl => .bind (hmake decl) fun a => .ofOutcome (push_fails c a)) decls _

variable (hpress : ∀ {α : Type} (x : Press α), x.Advances → x.Orderly → Q.Keeps (Build.press x))
  (hdepend : ∀ p, Q.Keeps (r.depend p))

include hpress hdepend

theorem targetSource_keeps (d : RegistryDocument) : Inheritance.SourceKeeps Q (targetSource r d) := by
  refine ⟨fun file name => ?_, fun file reference => .ofOutcome (r.library.locateFrom_fails file reference).blameless,
    fun b ws => ?_⟩
  · show Q.Keeps (if file = r.path then _ else _)
    split
    · exact .pure _
    · exact .bind (hdepend file) fun _ => .pure _
  · exact (hpress _ (.warnAll ws) (.warnAll ws)).of_ok (Build.effect_press (Press.warnAll ws) b)

theorem specOf_keeps (targets : Nat) (d : RegistryDocument) (memo : Inheritance.Memo) (decl : TargetDecl) :
    Q.Keeps (specOf r targets d memo decl) := by
  refine ⟨fun b => ?_⟩
  have hsource := targetSource_keeps hpress hdepend d
  have h := (Inheritance.specOf_keeps hsource (targets + 1) r.path decl).between { memo } b
  rcases hspec : (Inheritance.specOf (targetSource r d) (targets + 1) r.path decl).at { memo } b with
    ⟨⟨result, v⟩, t⟩
  rw [hspec] at h
  rw [effect_specOf hspec]
  cases result <;> exact h

variable (hrun : ∀ q c, Q.Keeps (r.run r.overlay q c))

include hrun

omit hdepend in
theorem targetOf_keeps (d : RegistryDocument) (decl : TargetDecl) (spec : TargetSpec) :
    Q.Keeps (targetOf r d decl spec) := by
  refine .bind (Resolver.variablesOf_keeps hrun _) fun static => .bind (hrun _ _) fun found => ?_
  dsimp only
  split
  · exact .bind (.ofOutcome (Target.destination_fails _ _ _).blameless) fun dest =>
      .bind (hpress _ (.create _ _ _) (ElementInfo.create_orderly _ _ _)) fun info => .pure _
  · exact .throw rfl

theorem targetsOf_keeps (targets : Nat) (d : RegistryDocument) : Q.Keeps (targetsOf r targets d) := by
  refine .bind (.foldlM (fun made decl => ?_) d.targets _) fun made => .pure _
  refine .bind (.within _ (.bind (specOf_keeps hpress hdepend targets d made.2 decl) fun found => ?_)) fun out => ?_
  · exact .bind (targetOf_keeps hpress hrun d decl found.1) fun _ => .pure _
  · exact .bind (.ofOutcome (push_fails made.1 out.1)) fun _ => .pure _

theorem targetsFor_keeps (targets : Nat) (mode : LoadMode) (d : RegistryDocument) :
    Q.Keeps (targetsFor r targets mode d) := by
  cases mode with
  | full => exact targetsOf_keeps hpress hdepend hrun targets d
  | dependency => exact .pure _

end Declared

/-! ### Builds -/

section Builds
variable {Q : Passage Building} (hQ : Q.Suits) (hdepend : ∀ p, Q.Keeps (depend fetch trail p))

include hQ hdepend

theorem importContents_keeps (file : Location) (d : ImportDecl) : Q.Keeps (importContents l fetch trail file d) := by
  refine .bind (.ofOutcome (l.locateFrom_fails _ _).blameless) fun p => .bind .get fun b => ?_
  split
  · exact .bind (hQ.press (.warn _)) fun _ => .pure none
  · exact .bind (hdepend p) fun _ => .pure _

omit hdepend in
/-- Targets are resolved with nothing but what resolving needs. -/
theorem resolved_targets_keep (hdepend : ∀ p, Q.Keeps (r.depend p)) (targets : Nat) (mode : LoadMode)
    (d : RegistryDocument) : Q.Keeps (targetsFor r targets mode d) :=
  targetsFor_keeps (fun _ _ hx => hQ.press hx) hdepend
    (Resolver.run_keeps hQ hdepend (Resolver.overlay_keeps hQ hdepend)) targets mode d

theorem build_keeps (extent : Library.Extent) (mode : LoadMode) (p : Location) :
    Q.Keeps (build l extent fetch mode trail p) := by
  refine .bind (.ofOutcome (l.document_fails p).blameless) fun d => ?_
  refine .bind (elementsOf_keeps (fun decl => hQ.press (Bit.ofDecl_orderly decl _)) d.bits) fun ownBits => ?_
  refine .bind (elementsOf_keeps (fun decl => hQ.press (Constant.ofDecl_orderly decl _)) d.constants)
    fun ownConstants => ?_
  refine .bind (.mapM (importContents_keeps hQ hdepend p) d.imports) fun imported => ?_
  refine .bind (.mapM (fun b => Resolver.ofChoice_keeps hQ hdepend _ b .defaults) _) fun _ => ?_
  exact .bind (resolved_targets_keep hQ hdepend _ mode d) fun _ => .bind .get fun _ => .pure _

end Builds

/-! ### Settled defaults -/

section Settled
open Store

/-- In one generation, defaults only grow, and registries stay settled. -/
def growth (generation : Nat) : Passage Store where
  ok s t := s.generation = generation →
    t.generation = generation ∧ KeepsDefaults s t ∧ (s.Settled → t.Settled)
  err _ _ _ := True
  refl _ hs := ⟨hs, fun _ _ h => h, id⟩
  trans h h' hs :=
    have ⟨ht, hd, hsettled⟩ := h hs
    have ⟨hu, hd', hsettled'⟩ := h' ht
    ⟨hu, hd.trans hd', fun hs => hsettled' (hsettled hs)⟩
  fail _ _ := trivial
  wrap _ _ := trivial
  trans_err _ _ := trivial

variable {generation : Nat}

theorem growth_admits : (growth generation).Admits where
  session s session hs := ⟨hs, fun _ _ h => h, id⟩
  defaults s id c hs := by
    have hd := KeepsDefaults.putDefaults s id c
    refine ⟨(putDefaults_generation s id c).trans hs, hd, fun hsettled p => ?_⟩
    rw [putDefaults_registry]
    exact (hsettled p).mono hd

/-- The states in which a build works. -/
def Ready (generation : Nat) (b : Building) : Prop := b.store.generation = generation ∧ b.store.Settled

theorem Ready.next {b c : Building} (h : Ready generation b) (hok : (growth generation).onStore.ok b c) :
    Ready generation c :=
  have ⟨hgeneration, _, hsettled⟩ := hok h.1
  ⟨hgeneration, hsettled h.2⟩

/-- Resolving the defaults of a bit leaves them resolved. -/
theorem ofChoice_defaults {room : Nat} {b : Bit} {s t : Building} {v : Context}
    (h : effect (r.ofChoice room b .defaults) s = (.ok v, t)) :
    ∃ v, t.store.defaults? b.info.id = some v := by
  cases room with
  | zero => cases h
  | succ room =>
    obtain ⟨s₁, _, hget, h⟩ := effect_bind_eq_ok.mp h
    cases hget
    split at h
    · rename_i known hknown
      cases h
      exact ⟨_, hknown⟩
    · obtain ⟨context, u, _, h⟩ := effect_bind_eq_ok.mp h
      cases h
      exact ⟨_, defaults?_putDefaults_self _ _ _⟩

/-- An import shows the contents of a registry of the store. -/
theorem importContents_settles (hfetch : ∀ p, p ∉ trail → (growth generation).Keeps (fetch p))
    {file : Location} {d : ImportDecl} {s t : Building} {i : Contents} (hs : Ready generation s)
    (h : effect (importContents l fetch trail file d) s = (.ok (some i), t)) : t.store.Settles i := by
  have ht := hs.next ((importContents_keeps growth_admits.suits (depend_keeps hfetch) file d).of_ok h)
  obtain ⟨p, s₁, _, h⟩ := effect_bind_eq_ok.mp h
  obtain ⟨s₂, _, _, h⟩ := effect_bind_eq_ok.mp h
  split at h
  · obtain ⟨_, _, _, h⟩ := effect_bind_eq_ok.mp h
    cases h
  · obtain ⟨_, s₃, hdepend, h⟩ := effect_bind_eq_ok.mp h
    obtain ⟨_, _, _, hread⟩ := effect_bind_eq_ok.mp hdepend
    cases hread
    cases h
    exact ht.2 p

/-- What a successful build shows is settled. -/
theorem build_settles (hfetch : ∀ p, p ∉ trail → (growth generation).Keeps (fetch p))
    {extent : Library.Extent} {mode : LoadMode} {p : Location} {s t : Building} {c : Contents}
    (hs : Ready generation s) (h : effect (build l extent fetch mode trail p) s = (.ok c, t)) :
    t.store.Settles c := by
  have hdepend : ∀ p, (growth generation).onStore.Keeps (depend fetch trail p) := depend_keeps hfetch
  obtain ⟨d, s₁, hd, h⟩ := effect_bind_eq_ok.mp h
  have h₁ : Ready generation s₁ := hs.next (Keeps.of_ok (.ofOutcome (l.document_fails p).blameless) hd)
  obtain ⟨ownBits, s₂, hbits, h⟩ := effect_bind_eq_ok.mp h
  have h₂ : Ready generation s₂ := h₁.next (Keeps.of_ok
    (elementsOf_keeps (fun decl => growth_admits.suits.press (Bit.ofDecl_orderly decl _)) _) hbits)
  obtain ⟨ownConstants, s₃, hconstants, h⟩ := effect_bind_eq_ok.mp h
  have h₃ : Ready generation s₃ := h₂.next (Keeps.of_ok
    (elementsOf_keeps (fun decl => growth_admits.suits.press (Constant.ofDecl_orderly decl _)) _) hconstants)
  obtain ⟨imports, s₄, himports, h⟩ := effect_bind_eq_ok.mp h
  have hkeeps := importContents_keeps (l := l) growth_admits.suits hdepend p
  have h₄ : Ready generation s₄ := h₃.next (Keeps.of_ok (.mapM hkeeps _) himports)
  obtain ⟨_, s₅, hdefaults, h⟩ := effect_bind_eq_ok.mp h
  have hown := Keeps.forall_mapM (fun b _ s => ∃ v, s.store.defaults? b.info.id = some v)
    (fun b => Resolver.ofChoice_keeps growth_admits.suits hdepend _ b .defaults) (fun _ _ => Ready.next)
    (fun b s v t _ h => ofChoice_defaults h) (fun b _ s u hs hok ⟨v, hv⟩ => ⟨v, (hok hs.1).2.1 _ v hv⟩) h₄ hdefaults
  have himported := Keeps.forall_mapM (fun _ found s => ∀ i, found = some i → s.store.Settles i) hkeeps
    (fun _ _ => Ready.next) (fun d s found t hs h i hi => importContents_settles hfetch hs (hi ▸ h))
    (fun _ _ s u hs hok hi i h => (hi i h).mono (hok hs.1).2.1) h₃ himports
  have hbetween := Keeps.of_ok (.mapM (fun b => Resolver.ofChoice_keeps growth_admits.suits hdepend _ b .defaults) _)
    hdefaults
  have h₅ : Ready generation s₅ := h₄.next hbetween
  obtain ⟨ownTargets, s₆, htargets, h⟩ := effect_bind_eq_ok.mp h
  have hlast := (resolved_targets_keep growth_admits.suits hdepend _ mode d).of_ok htargets
  obtain ⟨_, _, hget, h⟩ := effect_bind_eq_ok.mp h
  cases hget
  cases h
  intro b hb
  have hmono : KeepsDefaults s₅.store t.store := (hlast h₅.1).2.1
  rcases Collection.mem_of_mem_foldl hb with hb | ⟨i, hi, hb⟩
  · obtain ⟨_, v, hv⟩ := hown.1 b hb
    exact ⟨v, hmono _ v hv⟩
  · obtain ⟨found, hfound, hi⟩ := List.mem_filterMap.mp hi
    obtain ⟨_, hsettles⟩ := himported.2 found hfound
    exact (hsettles i hi).mono ((hbetween h₄.1).2.1.trans hmono) b hb

end Settled

end Bitpress.Load
