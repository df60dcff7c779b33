import Bitpress.Proofs.Import.Course
import Mathlib.Algebra.Order.BigOperators.Group.List
import Mathlib.Algebra.Order.Group.Nat

/-!
Queries in the build of a registry.

While a registry is built, queries search its own bits with those of its imports,
and the bits of other current registries. All of these are declared in some file,
each bit in one, so there are no more presets than the files declare
(`Draft.bears`).
-/

namespace Bitpress

open Outcome

namespace Kind

theorem bits_presets {d : RegistryDocument} {decl : BitDecl} {b : Bit} (h : Kind.bits.Makes d decl b) :
    b.presets.length ≤ decl.presets.length := by
  obtain ⟨session, h⟩ := h
  have h : effect (Bit.ofDecl decl d.tags) session = (.ok b, (effect (Bit.ofDecl decl d.tags) session).2) :=
    Prod.ext h rfl
  have hrest : ∀ s t, effect (do
      Press.warnAll ((decl.presets.filter Bit.isReserved).map fun _ => Bit.reservedWarning (decl.name.getD "<unnamed>"))
      let info ← ElementInfo.create decl.name (decl.tags ++ d.tags) (Bit.declaredMetadata decl)
      Press.warnAll (DefaultsSpec.warnings decl.defaults)
      return (⟨info, decl.src, .ofTable decl.defaults, decl.presets.filter fun p => !Bit.isReserved p⟩ : Bit)) s =
        (.ok b, t) → b.presets = decl.presets.filter fun p => !Bit.isReserved p := by
    intro s t h
    obtain ⟨_, _, _, h⟩ := effect_bind_eq_ok.mp h
    obtain ⟨_, _, _, h⟩ := effect_bind_eq_ok.mp h
    obtain ⟨_, _, _, h⟩ := effect_bind_eq_ok.mp h
    cases h
    rfl
  have hfilter : b.presets = decl.presets.filter fun p => !Bit.isReserved p := by
    unfold Bit.ofDecl at h
    dsimp only at h
    split at h
    · obtain ⟨_, _, hthrow, _⟩ := effect_bind_eq_ok.mp h
      cases hthrow
    · exact hrest _ _ h
  rw [hfilter]
  exact List.length_filter_le ..

end Kind

theorem Bit.length_pairs (b : Bit) : b.pairs.length = b.presets.length + 1 := by
  rw [Bit.pairs, List.length_cons, List.length_map, List.length_range]

/-- The presets that a document declares, the defaults of each bit counted as one. -/
def RegistryDocument.presetCount (d : RegistryDocument) : Nat :=
  Library.total (fun b => b.presets.length + 1) d.bits

theorem length_pairs_le {d : RegistryDocument} {decls : List BitDecl} {own : List Bit}
    (h : List.Forall₂ (Kind.bits.Makes d) decls own) :
    (own.flatMap Bit.pairs).length ≤ Library.total (fun b => b.presets.length + 1) decls := by
  induction h with
  | nil => exact Nat.le_refl 0
  | cons hmakes _ ih =>
    rw [List.flatMap_cons, List.length_append, Library.total_cons, Bit.length_pairs]
    have := Kind.bits_presets hmakes
    omega

theorem Library.extent_presets (l : Library) :
    l.extent.presets = total (fun p => ((l.document p).toOption.map RegistryDocument.presetCount).getD 0) l.places :=
  l.total_documents RegistryDocument.presetCount

namespace Store

/-- The bits of a current registry are declared in it or in those that it imports. -/
theorem Standing.offers {l : Library} {s : Store} {q : Location} {b : Bit} (hs : s.Standing l) (hq : s.Current q)
    (hb : b ∈ s.items .bits q) : l.Offers q b := by
  obtain ⟨q', hpath, hq', hown⟩ := (hs.bits_shared.mem_items hq).mp hb
  obtain ⟨d, imports, hbuilt⟩ := hs.built q' hq'
  obtain ⟨decl, hdecl, session, hmakes⟩ := (exists_of_forall₂ hbuilt.bits.made).2 b hown
  exact ⟨q', hpath, d, decl, session, hbuilt.document, hdecl, hmakes⟩

end Store

namespace Load

open Store

/-- What a build resolves queries against. -/
def resolver (l : Library) (fetch : Location → StoreM Unit) (trail : List Location) (p : Location)
    (bits : Collection Bit) (constants : Collection Constant) : Resolver :=
  ⟨l, p, bits, constants, l.extent.presets, depend fetch trail⟩

/-- A registry whose build has come to its queries: its own bits are made, and its imports are current. -/
structure Draft (l : Library) (R : Location → Location → Prop) (generation : Nat) (fetch : Location → StoreM Unit)
    (trail : List Location) (p : Location) (d : RegistryDocument) (base : Store) (own : List Bit) (bits : Collection Bit) :
    Prop where
  canonical : p.Canonical
  document : l.document p = .ok d
  made : List.Forall₂ (Kind.bits.Makes d) d.bits own
  standing : base.Standing l
  members : ∀ b ∈ bits.items, b ∈ own ∨ ∃ q, l.Imports p q ∧ base.Current q ∧ b ∈ base.items .bits q
  leads : ∀ q, l.Requests p q → R p q
  fetches : Fetches l R generation trail p fetch
  walk : Trail R id trail
  last : trail.getLast? = some p

theorem setting_move {l : Library} {R : Location → Location → Prop} {generation : Nat} {trail : List Location}
    (p : Location) {base t : Store} (own : List Bit) {g : Ground} (hg : (setting l R generation trail p base own).inv g) (h : Grown g.1 t)
    (hnone : ∀ q, t.Current q → g.1.Current q) : (setting l R generation trail p base own).inv (t, g.2) :=
  ⟨⟨h.generation.trans hg.1.1, hg.1.2.1.move h hnone, fun q hq hcurrent => hg.1.2.2 q hq (hnone q hcurrent)⟩,
    hg.2.1.trans h, fun q hq => h.current (hg.2.2 q hq)⟩

theorem setting_pairs_mono {l : Library} {R : Location → Location → Prop} {generation : Nat}
    {trail : List Location} {p : Location} {base : Store} {own : List Bit} {g g' : Ground} (h : Grown g.1 g'.1) :
    (setting l R generation trail p base own).pairs g ⊆ (setting l R generation trail p base own).pairs g' := by
  intro pair hpair
  obtain ⟨q, hq, hpair⟩ := List.mem_flatMap.mp hpair
  refine List.mem_flatMap.mpr ⟨q, hq, ?_⟩
  split at hpair
  · rename_i hqp
    rwa [if_pos hqp]
  · rename_i hqp
    rw [if_neg hqp]
    split at hpair
    · rename_i hcurrent
      have hcurrent' : (g'.1.registry q).isCurrent g'.1.generation = true := h.current hcurrent
      rw [if_pos hcurrent', h.own_eq hcurrent]
      exact hpair
    · cases hpair

namespace Draft

variable {l : Library} {R : Location → Location → Prop} {generation : Nat} {fetch : Location → StoreM Unit}
  {trail : List Location} {p q : Location} {d : RegistryDocument} {base : Store} {own : List Bit}
  {bits : Collection Bit} {constants : Collection Constant} {g : Ground} {b : Bit}

section Draft
variable (h : Draft l R generation fetch trail p d base own bits)

include h

theorem declares (hb : b ∈ own) : l.Declares p b := by
  obtain ⟨decl, hdecl, session, hmakes⟩ := (exists_of_forall₂ h.made).2 b hb
  exact ⟨d, decl, session, h.document, hdecl, hmakes⟩

theorem offers (hb : b ∈ bits.items) : l.Offers p b := by
  rcases h.members b hb with hb | ⟨q, himports, hq, hb⟩
  · exact ⟨p, .refl, h.declares hb⟩
  · exact (h.standing.offers hq hb).import himports

theorem not_current (hg : (setting l R generation trail p base own).inv g) : ¬ g.1.Current p :=
  hg.1.2.2 p (List.mem_of_getLast? h.last)

theorem own_pairs (hb : b ∈ own) : b.pairs ⊆ (setting l R generation trail p base own).pairs g := by
  refine fun pair hpair => List.mem_flatMap.mpr ⟨p, Library.mem_places h.canonical h.document, ?_⟩
  rw [if_pos rfl]
  exact List.mem_flatMap.mpr ⟨b, hb, hpair⟩

/-- The presets of the bits that a current registry has are among those known. -/
theorem lent_pairs (hg : (setting l R generation trail p base own).inv g) (hq : g.1.Current q)
    (hb : b ∈ g.1.items .bits q) : b.pairs ⊆ (setting l R generation trail p base own).pairs g := by
  have hstanding := hg.1.2.1
  obtain ⟨q', _, hq', hown⟩ := (hstanding.bits_shared.mem_items hq).mp hb
  obtain ⟨d', _, hbuilt⟩ := hstanding.built q' hq'
  have hne : q' ≠ p := fun he => h.not_current hg (he ▸ hq')
  have hcurrent : (g.1.registry q').isCurrent g.1.generation = true := hq'
  refine fun pair hpair => List.mem_flatMap.mpr ⟨q', Library.mem_places hbuilt.canonical hbuilt.document, ?_⟩
  rw [if_neg hne, if_pos hcurrent]
  exact List.mem_flatMap.mpr ⟨b, hown, hpair⟩

theorem few (hg : (setting l R generation trail p base own).inv g) :
    ((setting l R generation trail p base own).pairs g).length ≤ l.extent.presets := by
  rw [l.extent_presets]
  show (l.places.flatMap _).length ≤ _
  rw [Library.length_flatMap_eq]
  refine Library.total_le_total fun q _ => ?_
  by_cases hp : q = p
  · rw [if_pos hp, hp, h.document]
    exact length_pairs_le h.made
  · rw [if_neg hp]
    split
    · rename_i hq
      obtain ⟨d', _, hbuilt⟩ := hg.1.2.1.built q hq
      rw [hbuilt.document]
      exact length_pairs_le hbuilt.bits.made
    · exact Nat.zero_le _

/-- Where queries lead in the build can be read off the files. -/
theorem finds {t : Table Tree} {k : Pick} (hg : (setting l R generation trail p base own).inv g)
    (hk : (setting l R generation trail p base own).Finds (resolver l fetch trail p bits constants) g t k) :
    l.Finds p t k := by
  obtain ⟨name, q, c, hq, hkind, hc, hfound, hchoice⟩ := hk
  unfold Setting.Sought at hc
  split at hc
  · rename_i hnone
    subst hc
    exact ⟨name, q, p, c, hq, hkind, by rw [Library.Sought, hnone], fun b => h.offers, hfound, hchoice⟩
  · rename_i reference hreference
    obtain ⟨source, hsource, hc⟩ := hc
    refine ⟨name, q, source, c, hq, hkind, by rw [Library.Sought, hreference]; exact hsource, fun b hb => ?_, hfound,
      hchoice⟩
    split at hc
    · rename_i hpath
      subst hc
      rw [show source = p from hpath]
      exact h.offers hb
    · obtain ⟨hcurrent, rfl⟩ := hc
      exact hg.1.2.1.offers hcurrent hb

theorem selects {k k' : Pick} (hg : (setting l R generation trail p base own).inv g)
    (hk : (setting l R generation trail p base own).Selects (resolver l fetch trail p bits constants) g k k') :
    l.Selects p k k' := by
  obtain ⟨t, ht, u, hu, hfinds⟩ := hk
  exact ⟨t, ht, u, hu, h.finds hg hfinds⟩

/-- Presets that an error shows are in the files. -/
theorem circle {picks : List Pick} (hg : (setting l R generation trail p base own).inv g) (hpicks : ClosedWalk
    ((setting l R generation trail p base own).Selects (resolver l fetch trail p bits constants) g) Pick.pair picks) :
    l.Circle (picks.map Pick.key) :=
  ⟨p, picks, ⟨hpicks.closed, hpicks.distinct, hpicks.leads.imp fun _ _ hk => h.selects hg hk⟩, rfl⟩

/-- Queries can be resolved in the build of a registry. -/
theorem bears {on : Table Tree → Prop} (hon : l.Allows R p on) :
    (setting l R generation trail p base own).Bears (resolver l fetch trail p bits constants) on where
  plain e he := Library.fair_of_plain he
  within context e he := he.within context
  session g session hg hahead := by
    obtain ⟨hgrown, hnone⟩ := Grown.of_same (s := g.1) (t := { g.1 with session }) rfl hahead.1 fun _ => rfl
    exact ⟨setting_move p own hg hgrown hnone, hgrown⟩
  defaults g id c hg _ := by
    obtain ⟨hgrown, hnone⟩ := Grown.of_same (putDefaults_generation g.1 id c)
      (Nat.le_of_eq (congrArg Session.identities (putDefaults_session g.1 id c).symm)) (putDefaults_registry g.1 id c)
    exact ⟨setting_move p own hg hgrown hnone, hgrown⟩
  bits_mono hle hc := ⟨hle.current hc.1, by rw [hle.same _ hc.1]; exact hc.2⟩
  pairs_mono hle := setting_pairs_mono hle
  few g hg := h.few hg
  own g hg b hb := by
    rcases h.members b hb with hb | ⟨q, _, hq, hb⟩
    · exact h.own_pairs hb
    · refine h.lent_pairs hg (hg.2.1.current hq) ?_
      rw [hg.2.1.items_eq hq]
      exact hb
  lent g q c hg hc b hb := h.lent_pairs hg hc.1 (by rw [← hc.2] at hb; exact hb)
  depend s t name q reference p' hs ht hq hreference hp' hne := by
    have hleads : R p p' := hon.leads ht hq hreference hp' hne
    exact (depend_comes h.fetches h.walk h.last hs hleads (Library.locate_canonical hp')).imp
      fun c u _ _ hc => ⟨hc.1, congrArg Contents.bits hc.2.1.symm⟩
  inside _ _ := hon.inside
  found g t k hg ht hk u hu := hon.found ht (h.finds hg hk) hu

end Draft

end Draft

end Load

end Bitpress
