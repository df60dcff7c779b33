import Bitpress.Proofs.Import.Build
import Bitpress.Proofs.Load.Build
import Bitpress.Proofs.Memo.Resolve

/-!
What a build keeps of the defaults that are known.

A build keeps what loads keep, whether it fails or not, and all bits that it shows
in the end have their defaults (`Load.build_obeys`). Those of its own bits were
resolved while the registry was in the making, so they are what is worked out
afresh in every later store.
-/

namespace Bitpress

namespace ElementId

variable {m n : Nat} {b : Bit}

theorem GivenBy.of_given (h : Element.Given m n b) : b.info.id.GivenBy n := by
  obtain ⟨k, -, hk, hid⟩ := h
  show (Element.id b).value < _
  rw [hid]
  exact Nat.add_lt_add_left hk _

theorem GivenAfter.of_given (h : Element.Given m n b) : b.info.id.GivenAfter m := by
  obtain ⟨k, hk, -, hid⟩ := h
  show _ ≤ (Element.id b).value
  rw [hid]
  exact Nat.add_le_add_left hk _

end ElementId

namespace Load

open Store

variable {l : Library} {count generation n : Nat} {trail : List Location} {p : Location} {s : Store}
  {fetch : Location → StoreM Unit} {later : Store}

/-- What the steps of a build keep that began when `n` identities were given out. -/
def gaining (l : Library) (count generation : Nat) (trail : List Location) (n : Nat) : Rule Building where
  inv b := Keeping l count generation trail b.store
  le b c := Gains n b.store c.store
  refl b := .refl n b.store
  trans := .trans

/-- Contents take their bits from their own declarations and from current registries, and what they declare is told
apart from all that is there. -/
structure Fits (t : Store) (c : Contents) : Prop where
  members : ∀ b ∈ c.bits.items, b ∈ Kind.bits.own c ∨ ∃ q, t.Current q ∧ b ∈ t.items .bits q
  given : ∀ b ∈ Kind.bits.own c, b.info.id.GivenBy t.session.identities
  distinct : ((Kind.bits.own c).map fun b => b.info.id).Nodup
  apart : ∀ q, t.Current q → ∀ b ∈ t.items .bits q, ∀ a ∈ Kind.bits.own c, a.info.id ≠ b.info.id

/-- The contents that a build ends with: all their bits have defaults, and those that the build has declared have
in all later stores the ones that are worked out afresh. -/
structure Crafted (l : Library) (count : Nat) (s t : Store) (p : Location) (c : Contents) : Prop extends Fits t c where
  settles : t.Settles c
  young : ∀ b ∈ Kind.bits.own c, b.info.id.GivenAfter s.session.identities
  faithful : ∀ later, Leads count later t → ∀ b ∈ Kind.bits.own c, ∃ v, t.defaults? b.info.id = some v ∧
    Repeats (Visits later) (fun room => (Resolver.settled l p c.bits c.constants).ofChoiceAfresh
      (Kind.bits.own c) room b .defaults) v

/-! ### Imports -/

/-- A registry that has declared nothing yet. -/
def Making.blank (l : Library) (p : Location) (count since generation : Nat) (trail : List Location) : Making where
  library := l
  path := p
  own := []
  bits := .empty
  constants := .empty
  count := count
  since := since
  generation := generation
  trail := trail
  distinct := List.nodup_nil
  young _ hb := by cases hb

theorem Making.blank_working {b : Building} (hb : Keeping l count generation trail b.store)
    (hdepends : ∀ q ∈ b.dependencies, b.store.Current q) (hn : n ≤ b.store.session.identities) :
    (Making.blank l p count n generation trail).Working later b.ground :=
  ⟨hb, hdepends, hn, fun _ h => (by cases h), fun _ _ _ _ _ h => (by cases h), fun _ h => (by cases h),
    fun _ h => by cases h⟩

/-- An import shows what a current registry holds. -/
theorem importContents_obeys {D : Making} (hfetch : D.Fetches fetch) {b : Building} (hb : D.Working later b.ground)
    (decl : ImportDecl) : Obeys (D.replay later).rule (importContents l fetch D.trail p decl) b fun found t =>
      ∀ c, found = some c → ∃ q, t.store.Current q ∧ c = (t.store.registry q).contents := by
  refine (Build.ofOutcome_obeys _ hb).bind fun q t ht _ _ => .get_bind ?_
  split
  · have hwarn : Obeys.Safe (D.replay later).rule (Build.press (Press.warn (duplicateImport p decl.registry))) t := by
      have hahead := (Press.Advances.warnAll [duplicateImport p decl.registry] t.store.session).le
      exact .of_effect (Build.effect_press _ t) (ht.session hahead) ⟨.session hahead, rfl⟩ fun _ _ => trivial
    exact hwarn.bind fun _ u hu _ _ => .pure hu fun c hc => by cases hc
  · exact (Making.depend_obeys hfetch ht).bind fun c u hu _ hc => .pure hu fun c' hc' => by cases hc'; exact ⟨q, hc⟩

theorem imports_obey {D : Making} (hfetch : D.Fetches fetch) {b : Building} (hb : D.Working later b.ground)
    (decls : List ImportDecl) : Obeys (D.replay later).rule (decls.mapM (importContents l fetch D.trail p)) b fun found t =>
      ∀ c ∈ found.filterMap id, ∃ q, t.store.Current q ∧ c = (t.store.registry q).contents := by
  refine (Obeys.mapM hb (fun decl t _ ht _ => importContents_obeys hfetch ht decl) ?_).imp fun found t _ _ h c hc => ?_
  · rintro _ found t u _ _ hle h c hc
    obtain ⟨q, hq, rfl⟩ := h c hc
    exact ⟨q, hle.1.current hq, congrArg Registry.contents (hle.1.same q hq).symm⟩
  · obtain ⟨x, hx, hc⟩ := List.mem_filterMap.mp hc
    obtain ⟨_, _, h⟩ := (exists_of_forall₂ h).2 x hx
    exact h c hc

/-! ### The registry in the making -/

/-- After the imports, the registry can resolve its queries. Its own bits have no defaults yet, as they were declared
when `n` identities were given out, after all that had defaults then and before all that has come since. -/
theorem Making.working {D : Making} {session : Session} {b : Building} (hs : Keeping D.library D.count D.generation D.trail s)
    (hsince : D.since = s.session.identities) (hn : D.since ≤ n) (hgiven : ∀ b ∈ D.own, b.info.id.GivenBy n)
    (hb : Keeping D.library D.count D.generation D.trail b.store) (hgains : Gains n { s with session } b.store)
    (hnow : n ≤ b.store.session.identities) (hdepends : ∀ q ∈ b.dependencies, b.store.Current q)
    (hfound : ∀ a ∈ D.bits.items, a ∈ D.own ∨ ∃ q, b.store.Current q ∧ a ∈ b.store.items .bits q) :
    D.Working later b.ground := by
  have hapart : ∀ q, b.store.Current q → ∀ a ∈ b.store.items .bits q, ∀ a' ∈ D.own, a'.info.id ≠ a.info.id := by
    intro q hq a ha a' ha' hid
    rcases hgains.lent q hq a ha with ⟨q', hq', ha⟩ | hafter
    · have hbefore := hs.shown q' hq' a ha
      rw [← hid, ← hsince] at hbefore
      exact hbefore.not_after (D.young a' ha')
    · exact (hgiven a' ha').not_after (hid ▸ hafter)
  refine ⟨hb, hdepends, Nat.le_trans hn hnow, fun a ha => (hgiven a ha).mono hnow, hapart, fun a ha => ?_,
    fun a ha v hv => ?_⟩
  · rcases hfound a ha with ha | ⟨q, hq, ha⟩
    · exact .inl ha
    · exact .inr ⟨hapart q hq a ha, hb.settled q a ha⟩
  · rcases hgains.fresh _ v hv with hv | hafter
    · have hbefore := hs.dated _ v hv
      rw [← hsince] at hbefore
      exact absurd (D.young a ha) hbefore.not_after
    · exact absurd hafter (hgiven a ha).not_after

namespace Making

variable {D : Making} {b : Building}

/-- The defaults of all its bits can be resolved. -/
theorem defaults_obey (hfetch : D.Fetches fetch) (hb : D.Working later b.ground) (room : Nat) :
    Obeys (D.replay later).rule (D.own.mapM fun a => (D.resolver fetch).ofChoice room a .defaults) b fun _ t =>
      ∀ a ∈ D.own, ∃ v, t.store.defaults? a.info.id = some v := by
  have hone : ∀ a t, a ∈ D.own → (D.replay later).rule.inv t → (D.replay later).rule.le b t →
      Obeys (D.replay later).rule ((D.resolver fetch).ofChoice room a .defaults) t fun _ u =>
        ∃ v, u.store.defaults? a.info.id = some v := fun a t ha ht _ =>
    have hobeys := ofChoice_echoes hfetch room .defaults ht (.inl ha)
    ⟨hobeys.inv, hobeys.le, fun _ _ h => ofChoice_defaults h⟩
  refine (Obeys.mapM hb hone fun a _ t u _ _ hle ⟨v, hv⟩ => ⟨v, hle.1.defaults _ v hv⟩).imp fun _ t _ _ h a ha => ?_
  obtain ⟨_, _, hv⟩ := (exists_of_forall₂ h).1 a ha
  exact hv

theorem overlay_echoes (hfetch : D.Fetches fetch) (a : Bit) (selector : Option PresetSelector)
    (hb : D.Working later b.ground) (ha : Known D.own b.store a) :
    (D.replay later).Echoes ((D.resolver fetch).overlay a selector) b
      (fun n => Resolver.overlayBy (D.afresh n) a selector) fun _ _ => True :=
  Resolver.overlayBy_echoes (serves hfetch) a selector hb fun choice _ _ ht hle _ =>
    ofChoice_echoes hfetch _ choice ht (ha.mono hle.defaults)

/-- So can its targets. -/
theorem targets_obey (hfetch : D.Fetches fetch) (hb : D.Working later b.ground) (targets : Nat) (mode : LoadMode)
    (d : RegistryDocument) : Obeys.Safe (D.replay later).rule (targetsFor (D.resolver fetch) targets mode d) b := by
  refine Rule.safe_of_keeps (targetsFor_keeps (fun x hx _ => ?_) (fun q => ?_) (fun q c => ?_) targets mode d) hb
  · refine Rule.keeps_of_safe fun t ht => ?_
    have hahead := (hx t.store.session).le
    exact .of_effect (Build.effect_press x t) (Working.session ht hahead) ⟨.session hahead, rfl⟩ fun _ _ => trivial
  · exact Rule.keeps_of_safe fun t ht => (depend_obeys hfetch ht).safe
  · refine Rule.keeps_of_safe fun t ht => ?_
    have hrun := Resolver.run_echoes (serves hfetch) (fun a selector _ hu _ ha =>
      overlay_echoes hfetch a selector hu ha) q c ht (Eq.refl t.trail)
    exact hrun.safe

/-- What is left to do for the contents. -/
theorem rest_obeys (hfetch : D.Fetches fetch) (hb : D.Working later b.ground) (room targets : Nat) (mode : LoadMode)
    (d : RegistryDocument) (imported : List Contents) :
    Obeys (D.replay later).rule (do
      let _ ← D.own.mapM fun a => (D.resolver fetch).ofChoice room a .defaults
      let ownTargets ← targetsFor (D.resolver fetch) targets mode d
      let targets := imported.foldl (fun c i => c.absorb i.targets.items) ownTargets
      return (⟨some d, D.bits, D.constants, targets, (← getThe Building).dependencies⟩ : Contents)) b fun c t =>
        (c.document = some d ∧ c.bits = D.bits ∧ c.constants = D.constants) ∧
          ∀ a ∈ D.own, ∃ v, t.store.defaults? a.info.id = some v := by
  refine (defaults_obey hfetch hb room).bind fun _ t ht _ hdefaults => ?_
  refine (targets_obey hfetch ht targets mode d).bind fun _ u hu hle _ => .get_bind (.pure hu ⟨⟨rfl, rfl, rfl⟩, ?_⟩)
  intro a ha
  obtain ⟨v, hv⟩ := hdefaults a ha
  exact ⟨v, hle.1.defaults _ v hv⟩

end Making

/-! ### Builds -/

variable {mode : LoadMode}

theorem gaining_press {x : Press α} (hx : x.Advances) : (gaining l count generation trail n).passage.Keeps (Build.press x) := by
  refine Rule.keeps_of_safe fun b hb => ?_
  have hahead := (hx b.store.session).le
  exact .of_effect (Build.effect_press x b) (Keeping.session hb hahead) (.session hahead) fun _ _ => trivial

theorem elementsOf_obeys {α δ : Type} [Element α] {K : Kind α δ} (hK : K.Fresh) {d : RegistryDocument}
    (hmake : ∀ decl, (K.make d decl).Advances) (decls : List δ) {b : Building} (hb : Keeping l count generation trail b.store) :
    Obeys (gaining l count generation trail n) (elementsOf (K.make d) decls) b fun c t =>
      sessions.le b t ∧ Made K d b.store.session.identities t.store.session.identities decls c := by
  have hkept := Rule.safe_of_keeps (elementsOf_keeps (fun decl => gaining_press (n := n) (hmake decl)) decls) hb
  refine ⟨hkept.inv, hkept.le, fun c t h => ?_⟩
  obtain ⟨-, hle, hmade⟩ := (elementsOf_comes hK d decls b).ok c t h
  exact ⟨hle, hmade⟩

/-- The registry that is made of what was gathered. -/
def Making.ofGathered (l : Library) (p : Location) (count since now generation : Nat) (trail : List Location) (g : Gathered)
    (hown : Made .bits g.document since now g.document.bits g.ownBits) : Making where
  library := l
  path := p
  own := g.ownBits.items
  bits := g.bits
  constants := g.constants
  count := count
  since := since
  generation := generation
  trail := trail
  distinct := hown.distinct
  young b hb := .of_given (hown.given b hb)

/-- The registry has become contents. -/
theorem Making.crafted {D : Making} {t : Store} {deps : List Location} {c : Contents}
    (hwork : ∀ later, D.Working later (t, deps)) (hsince : D.since = s.session.identities)
    (hmembers : ∀ b ∈ D.bits.items, b ∈ D.own ∨ ∃ q, t.Current q ∧ b ∈ t.items .bits q)
    (hdefaults : ∀ b ∈ D.own, ∃ v, t.defaults? b.info.id = some v) (hown : Kind.bits.own c = D.own)
    (hbits : c.bits = D.bits) (hconstants : c.constants = D.constants) : Crafted D.library D.count s t D.path c := by
  refine ⟨⟨fun b hb => ?_, fun b hb => ?_, ?_, ?_⟩, fun b hb => ?_, fun b hb => ?_, fun later hleads b hb => ?_⟩
  · rw [hbits] at hb
    rw [hown]
    exact hmembers b hb
  · rw [hown] at hb
    exact (hwork t).given b hb
  · rw [hown]
    exact D.distinct
  · rw [hown]
    exact (hwork t).apart
  · rw [hbits] at hb
    exact ((hwork t).found b hb).elim (hdefaults b) And.right
  · rw [hown] at hb
    exact hsince ▸ D.young b hb
  · rw [hown] at hb ⊢
    rw [hbits, hconstants]
    obtain ⟨v, hv⟩ := hdefaults b hb
    exact ⟨v, hv, (hwork later).sound b hb v hv hleads⟩

section Builds
variable (hfetch : ∀ q s, q ∉ trail → Keeping l count generation trail s →
  Obeys (keeping l count generation trail) (fetch q) s fun _ t => t.Current q)

include hfetch

/-- A build keeps what loads keep until it comes to its queries, which can be resolved then. -/
theorem gather_obeys (hs : Keeping l count generation trail s) :
    Obeys (gaining l count generation trail s.session.identities) (gather l fetch trail p) { store := s } fun g b =>
      ∃ now, ∃ hown : Made .bits g.document s.session.identities now g.document.bits g.ownBits,
        (∀ later, (Making.ofGathered l p count _ now generation trail g hown).Working later b.ground) ∧
        ∀ a ∈ g.bits.items, a ∈ g.ownBits.items ∨ ∃ q, b.store.Current q ∧ a ∈ b.store.items .bits q := by
  refine (Build.ofOutcome_obeys _ hs).bind fun d b₁ h₁ _ hd => ?_
  obtain ⟨-, rfl⟩ := hd
  -- Its own elements have identities that nothing else has.
  refine (elementsOf_obeys Kind.bits_fresh (fun decl => .bitOfDecl decl d.tags) d.bits h₁).bind
    fun ownBits b₂ h₂ _ hbits => ?_
  obtain ⟨⟨⟨session₂, rfl⟩, hids₂⟩, hbits⟩ := hbits
  refine (elementsOf_obeys Kind.constants_fresh (fun decl => .constantOfDecl decl d.tags) d.constants h₂).bind
    fun ownConstants b₃ h₃ _ hconstants => ?_
  obtain ⟨⟨⟨session₃, rfl⟩, hids₃⟩, -⟩ := hconstants
  dsimp only at h₃ hbits hids₂ hids₃
  have hids : s.session.identities ≤ session₃.identities := Nat.le_trans hids₂ hids₃
  -- The imports.
  have hblank : (Making.blank l p count session₃.identities generation trail).Working s
      (Building.ground { store := { s with session := session₃ } }) :=
    Making.blank_working h₃ (fun _ h => by cases h) (Nat.le_refl _)
  have hblankFetches : (Making.blank l p count session₃.identities generation trail).Fetches fetch := hfetch
  have himports := imports_obey (l := l) (p := p) hblankFetches hblank d.imports
  refine (himports.relax (fun _ ht _ => ht.keeping) fun _ ht => ht.1.mono hids).bind fun found b₄ h₄ _ himported => ?_
  obtain ⟨himporting, ⟨hgains, -⟩, hcurrent⟩ := himported
  have hmembers : ∀ b ∈ (⟨d, ownBits, ownConstants, found.filterMap id⟩ : Gathered).bits.items,
      b ∈ ownBits.items ∨ ∃ q, b₄.store.Current q ∧ b ∈ b₄.store.items .bits q := by
    refine fun b hb => (Collection.mem_of_mem_foldl hb).imp_right fun ⟨i, hi, hb⟩ => ?_
    obtain ⟨q, hq, rfl⟩ := hcurrent i hi
    exact ⟨q, hq, hb⟩
  refine .pure h₄ ⟨_, hbits, fun later => ?_, hmembers⟩
  exact Making.working hs rfl hids (fun b hb => (ElementId.GivenBy.of_given (hbits.given b hb)).mono hids₃)
    h₄ hgains himporting.since himporting.depends hmembers

/-- A build keeps what loads keep, and ends with contents whose bits have their defaults. -/
theorem build_obeys (hs : Keeping l count generation trail s) :
    Obeys (gaining l count generation trail s.session.identities) (build l l.extent fetch mode trail p) { store := s }
      fun c t => Crafted l count s t.store p c := by
  rw [build_eq]
  refine (gather_obeys hfetch hs).bind fun g b hb _ hg => ?_
  obtain ⟨now, hown, hwork, hmembers⟩ := hg
  let D : Making := .ofGathered l p count _ now generation trail g hown
  have hfetches : D.Fetches fetch := hfetch
  have hrest : ∀ later, Obeys (D.replay later).rule (complete l fetch mode trail p g) b _ := fun later =>
    Making.rest_obeys hfetches (hwork later) (l.extent.presets + 1) l.extent.targets mode g.document g.imported
  have hkept : Obeys (gaining l count generation trail s.session.identities) _ b _ :=
    (hrest s).relax (fun _ ht _ => ht.keeping) fun _ ht => ht.1
  refine ⟨hkept.inv, hkept.le, fun c t h => ?_⟩
  obtain ⟨-, hle, ⟨hdocument, hcbits, hcconstants⟩, hdefaults⟩ := hkept.ok c t h
  have howns : Kind.bits.own c = D.own := own_of_absorbed hdocument hown.made
    (hcbits.trans (Collection.foldl_absorb (fun i : Contents => i.bits.items) g.imported))
  refine Making.crafted (D := D) (fun later => ((hrest later).after h).1) rfl (fun b hb => ?_) hdefaults howns hcbits
    hcconstants
  refine (hmembers b hb).imp_right fun ⟨q, hq, hb⟩ => ⟨q, hle.1.current hq, ?_⟩
  have hitems : t.store.items .bits q = _ := hle.1.items_eq hq
  rwa [hitems]

end Builds

end Load

end Bitpress
