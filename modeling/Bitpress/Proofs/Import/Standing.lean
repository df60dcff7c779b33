import Bitpress.Proofs.Import.Elements
import Bitpress.Proofs.Import.Requests
import Bitpress.Proofs.Store

/-!
What the registries of one generation hold.

A registry that is current was built from its file and from its imports, which
are current too (`Store.Built`). So its imports lead to no cycle, and it has just
the elements that they declare (`Store.Shared.mem_items`): as every element has an
identity of its own, and a registry is not built again while it is current, an
element that comes along several paths is taken over once.

`Store.Grown` is how a store changes in one generation. A registry that is current
stays as it is (`Store.Kept`), and one that becomes current declares elements with
identities that were not given out before.
-/

namespace Bitpress

namespace Store

/-- A registry is loaded in the present generation. -/
def Current (s : Store) (p : Location) : Prop := (s.registry p).isCurrent s.generation = true

section Kinds
variable {α δ : Type} [Element α] (K : Kind α δ)

/-- The elements that a registry declares itself. -/
def own (s : Store) (p : Location) : List α := K.own (s.registry p).contents

/-- All elements of a registry. -/
def items (s : Store) (p : Location) : List α := (K.part (s.registry p).contents).items

omit [Element α] in
theorem own_subset (s : Store) (p : Location) : s.own K p ⊆ s.items K p := fun _ => List.mem_of_mem_take

/-- Contents have the elements of one kind that a document declares, with those of its imports. -/
structure Holds (s : Store) (c : Contents) (d : RegistryDocument) (imports : List Location) : Prop where
  made : List.Forall₂ (K.Makes d) (K.declared d) (K.own c)
  distinct : ((K.own c).map Element.id).Nodup
  given : ∀ a ∈ K.own c, Element.Given 0 s.session.identities a
  absorbed : K.part c = .absorbed ⟨K.own c⟩ (imports.eraseDups.map (s.items K))

/-- No two registries declare elements with the same identity. -/
def Apart (s : Store) : Prop :=
  ∀ p q, s.Current p → s.Current q → p ≠ q → ∀ a ∈ s.own K p, ∀ b ∈ s.own K q, Element.id a ≠ Element.id b

/-- What registries declare that are current in a later store only has identities given out in between. -/
def Later (s t : Store) : Prop :=
  ∀ p, t.Current p → ¬ s.Current p → ∀ a ∈ t.own K p, ∃ n, Element.Given s.session.identities n a

end Kinds

/-- Contents are what building a registry from its document and its imports gives. -/
structure Built (l : Library) (s : Store) (p : Location) (c : Contents) (d : RegistryDocument)
    (imports : List Location) : Prop where
  canonical : p.Canonical
  document : l.document p = .ok d
  kept : c.document = some d
  located : List.Forall₂ (fun decl q => l.locateFrom p decl.registry = .ok q) d.imports imports
  current : ∀ q ∈ imports, s.Current q
  grounded : Acc (fun a b => l.Imports b a) p
  bits : Holds .bits s c d imports
  constants : Holds .constants s c d imports

/-- Every current registry was built from its document and its imports. -/
structure Standing (l : Library) (s : Store) : Prop where
  built : ∀ p, s.Current p → ∃ d imports, Built l s p (s.registry p).contents d imports
  bits : Apart .bits s
  constants : Apart .constants s

/-- The registries of a generation stay as they are. -/
structure Kept (s t : Store) : Prop where
  generation : t.generation = s.generation
  identities : s.session.identities ≤ t.session.identities
  same : ∀ p, s.Current p → t.registry p = s.registry p

/-- How a store changes in one generation. -/
structure Grown (s t : Store) : Prop extends Kept s t where
  bits : Later .bits s t
  constants : Later .constants s t

variable {l : Library} {s t u : Store} {p q : Location} {c : Contents} {d : RegistryDocument} {imports : List Location}

/-! ### Growth -/

theorem Current.congr (hp : s.Current p) (hgeneration : t.generation = s.generation)
    (hsame : t.registry p = s.registry p) : t.Current p := by
  unfold Current
  rw [hsame, hgeneration]
  exact hp

namespace Kept

theorem current (h : Kept s t) (hp : s.Current p) : t.Current p := hp.congr h.generation (h.same p hp)

section Kinds
variable {α δ : Type} [Element α] {K : Kind α δ}

omit [Element α] in
theorem own_eq (h : Kept s t) (hp : s.Current p) : t.own K p = s.own K p :=
  congrArg (fun r : Registry => K.own r.contents) (h.same p hp)

omit [Element α] in
theorem items_eq (h : Kept s t) (hp : s.Current p) : t.items K p = s.items K p :=
  congrArg (fun r : Registry => (K.part r.contents).items) (h.same p hp)

theorem holds (h : Kept s t) (himports : ∀ q ∈ imports, s.Current q) (hc : Holds K s c d imports) :
    Holds K t c d imports where
  made := hc.made
  distinct := hc.distinct
  given a ha := (hc.given a ha).mono (Nat.le_refl _) h.identities
  absorbed := by
    rw [hc.absorbed]
    refine congrArg _ (List.map_congr_left fun q hq => ?_)
    exact (h.items_eq (himports q (List.mem_eraseDups.mp hq))).symm

end Kinds

theorem built (h : Kept s t) (hc : Built l s p c d imports) : Built l t p c d imports where
  canonical := hc.canonical
  document := hc.document
  kept := hc.kept
  located := hc.located
  current q hq := h.current (hc.current q hq)
  grounded := hc.grounded
  bits := h.holds hc.current hc.bits
  constants := h.holds hc.current hc.constants

end Kept

namespace Grown

theorem refl (s : Store) : Grown s s :=
  ⟨⟨rfl, Nat.le_refl _, fun _ _ => rfl⟩, fun _ hp hnew => absurd hp hnew, fun _ hp hnew => absurd hp hnew⟩

/-- Nothing is changed but registries that are not current and do not become so. -/
theorem of_idle (hgeneration : t.generation = s.generation) (hids : s.session.identities ≤ t.session.identities)
    (hsame : ∀ p, t.registry p = s.registry p ∨ ¬ s.Current p ∧ ¬ t.Current p) :
    Grown s t ∧ ∀ p, t.Current p → s.Current p := by
  have hback : ∀ p, t.Current p → s.Current p := fun p hp => (hsame p).elim
    (fun h => hp.congr hgeneration.symm h.symm) fun h => absurd hp h.2
  have hkept : Kept s t := ⟨hgeneration, hids, fun p hp => (hsame p).elim id fun h => absurd hp h.1⟩
  exact ⟨⟨hkept, fun p hp hnew => absurd (hback p hp) hnew, fun p hp hnew => absurd (hback p hp) hnew⟩, hback⟩

/-- The registries stay as they are. -/
theorem of_same (hgeneration : t.generation = s.generation) (hids : s.session.identities ≤ t.session.identities)
    (hsame : ∀ p, t.registry p = s.registry p) : Grown s t ∧ ∀ p, t.Current p → s.Current p :=
  of_idle hgeneration hids fun p => .inl (hsame p)

theorem later {α δ : Type} [Element α] {K : Kind α δ} (h : Kept s t) (h' : Kept t u) (hs : Later K s t)
    (ht : Later K t u) : Later K s u := by
  intro p hp hnew a ha
  by_cases hmiddle : t.Current p
  · rw [h'.own_eq hmiddle] at ha
    exact hs p hmiddle hnew a ha
  · obtain ⟨n, hgiven⟩ := ht p hp hmiddle a ha
    exact ⟨n, hgiven.mono h.identities (Nat.le_refl n)⟩

theorem trans (h : Grown s t) (h' : Grown t u) : Grown s u where
  generation := h'.generation.trans h.generation
  identities := Nat.le_trans h.identities h'.identities
  same p hp := (h'.same p (h.current hp)).trans (h.same p hp)
  bits := later h.toKept h'.toKept h.bits h'.bits
  constants := later h.toKept h'.toKept h.constants h'.constants

end Grown

/-- A store that has grown without a new registry still stands. -/
theorem Standing.move (hs : Standing l s) (h : Grown s t) (hnone : ∀ p, t.Current p → s.Current p) : Standing l t where
  built p hp := by
    obtain ⟨d, imports, hbuilt⟩ := hs.built p (hnone p hp)
    refine ⟨d, imports, ?_⟩
    rw [h.same p (hnone p hp)]
    exact h.built hbuilt
  bits p q hp hq hne := by
    rw [h.own_eq (hnone p hp), h.own_eq (hnone q hq)]
    exact hs.bits p q (hnone p hp) (hnone q hq) hne
  constants p q hp hq hne := by
    rw [h.own_eq (hnone p hp), h.own_eq (hnone q hq)]
    exact hs.constants p q (hnone p hp) (hnone q hq) hne

/-! ### Imports of built registries -/

theorem exists_of_forall₂ {α β : Type} {r : α → β → Prop} {xs : List α} {ys : List β} (h : List.Forall₂ r xs ys) :
    (∀ x ∈ xs, ∃ y ∈ ys, r x y) ∧ ∀ y ∈ ys, ∃ x ∈ xs, r x y := by
  induction h with
  | nil => exact ⟨fun _ h => (by cases h), fun _ h => (by cases h)⟩
  | cons hr _ ih =>
    refine ⟨List.forall_mem_cons.mpr ⟨⟨_, List.mem_cons_self .., hr⟩, fun x hx => ?_⟩,
      List.forall_mem_cons.mpr ⟨⟨_, List.mem_cons_self .., hr⟩, fun y hy => ?_⟩⟩
    · obtain ⟨y, hy, hxy⟩ := ih.1 x hx
      exact ⟨y, List.mem_cons_of_mem _ hy, hxy⟩
    · obtain ⟨x, hx, hxy⟩ := ih.2 y hy
      exact ⟨x, List.mem_cons_of_mem _ hx, hxy⟩

/-- The locations of the declared imports are those of the registries that are imported. -/
theorem mem_imports_of_located {d : RegistryDocument} {imports : List Location} (hdocument : l.document p = .ok d)
    (h : List.Forall₂ (fun decl q => l.locateFrom p decl.registry = .ok q) d.imports imports) :
    q ∈ imports ↔ l.Imports p q := by
  constructor
  · intro hq
    obtain ⟨decl, hdecl, hlocated⟩ := (exists_of_forall₂ h).2 q hq
    exact ⟨d, decl, hdocument, hdecl, hlocated⟩
  · rintro ⟨d', decl, hdocument', hdecl, hlocated⟩
    cases hdocument.symm.trans hdocument'
    obtain ⟨q', hq', hlocated'⟩ := (exists_of_forall₂ h).1 decl hdecl
    cases hlocated.symm.trans hlocated'
    exact hq'

theorem Built.mem_imports (h : Built l s p c d imports) : q ∈ imports ↔ l.Imports p q :=
  mem_imports_of_located h.document h.located

namespace Standing

variable (hs : Standing l s)

include hs

/-- Whatever a current registry imports, directly or not, is current. -/
theorem reaches (hp : s.Current p) (hq : Relation.ReflTransGen l.Imports p q) : s.Current q := by
  induction hq with
  | refl => exact hp
  | tail _ himports ih =>
    obtain ⟨_, _, hbuilt⟩ := hs.built _ ih
    exact hbuilt.current _ (hbuilt.mem_imports.mpr himports)

/-- The imports of a current registry lead to no cycle. -/
theorem acyclic (hp : s.Current p) (hq : Relation.ReflTransGen l.Imports p q) : ¬ Relation.TransGen l.Imports q q := by
  obtain ⟨_, _, hbuilt⟩ := hs.built q (hs.reaches hp hq)
  have hgrounded := hbuilt.grounded.transGen
  intro hcycle
  have hself : Relation.TransGen (fun a b => l.Imports b a) q q := Relation.transGen_swap.mpr hcycle
  clear hcycle hq hbuilt
  induction hgrounded with
  | intro q _ ih => exact ih q hself hself

end Standing

/-! ### Elements of built registries -/

section Kinds
variable {α δ : Type} [Element α]

/-- What current registries have of one kind of elements. -/
structure Shared (K : Kind α δ) (l : Library) (s : Store) : Prop where
  holds : ∀ p, s.Current p → ∃ c d imports, Built l s p c d imports ∧ Holds K s (s.registry p).contents d imports
  apart : Apart K s

theorem Standing.bits_shared (hs : Standing l s) : Shared .bits l s :=
  ⟨fun p hp => have ⟨d, imports, h⟩ := hs.built p hp; ⟨_, d, imports, h, h.bits⟩, hs.bits⟩

theorem Standing.constants_shared (hs : Standing l s) : Shared .constants l s :=
  ⟨fun p hp => have ⟨d, imports, h⟩ := hs.built p hp; ⟨_, d, imports, h, h.constants⟩, hs.constants⟩

namespace Shared

variable {K : Kind α δ} (hK : Shared K l s) {a : α}

include hK

/-- Declared elements with the same identity are the same. -/
theorem eq_of_id {b : α} (ha : ∃ p, s.Current p ∧ a ∈ s.own K p) (hb : ∃ p, s.Current p ∧ b ∈ s.own K p)
    (hid : Element.id a = Element.id b) : a = b := by
  obtain ⟨p, hp, ha⟩ := ha
  obtain ⟨q, hq, hb⟩ := hb
  by_cases hpq : p = q
  · subst hpq
    obtain ⟨_, _, _, _, hholds⟩ := hK.holds p hp
    exact List.inj_on_of_nodup_map hholds.distinct ha hb hid
  · exact absurd hid (hK.apart p q hp hq hpq a ha b hb)

theorem items_nodup (hp : s.Current p) : ((s.items K p).map Element.id).Nodup := by
  obtain ⟨_, _, _, _, hholds⟩ := hK.holds p hp
  unfold items
  rw [hholds.absorbed]
  exact Collection.absorbed_nodup hholds.distinct

/-- A current registry has the elements that it and the registries declare that it imports, directly or not. -/
theorem mem_items (hp : s.Current p) :
    a ∈ s.items K p ↔ ∃ q, Relation.ReflTransGen l.Imports p q ∧ s.Current q ∧ a ∈ s.own K q := by
  have hgrounded : Acc (fun a b => l.Imports b a) p := by
    obtain ⟨_, _, _, hbuilt, _⟩ := hK.holds p hp
    exact hbuilt.grounded
  induction hgrounded generalizing a with
  | intro p _ ih =>
    obtain ⟨c, d, imports, hbuilt, hholds⟩ := hK.holds p hp
    have himported : ∀ q ∈ imports, ∀ b ∈ s.items K q,
        ∃ q', Relation.ReflTransGen l.Imports p q' ∧ s.Current q' ∧ b ∈ s.own K q' := by
      intro q hq b hb
      have himports := hbuilt.mem_imports.mp hq
      obtain ⟨q', hpath, hcurrent, hown⟩ := (ih q himports (hbuilt.current q hq)).mp hb
      exact ⟨q', .head himports hpath, hcurrent, hown⟩
    have habsorbed : a ∈ (Collection.absorbed ⟨s.own K p⟩ (imports.eraseDups.map (s.items K))).items ↔
        a ∈ s.own K p ∨ ∃ items ∈ imports.eraseDups.map (s.items K), a ∈ items := by
      refine Collection.mem_absorbed (fun b b' => hK.eq_of_id) (fun b hb => ⟨p, hp, hb⟩) fun items hitems b hb => ?_
      obtain ⟨q, hq, rfl⟩ := List.mem_map.mp hitems
      obtain ⟨q', _, hq', hown⟩ := himported q (List.mem_eraseDups.mp hq) b hb
      exact ⟨q', hq', hown⟩
    have hitems : s.items K p = (Collection.absorbed ⟨s.own K p⟩ (imports.eraseDups.map (s.items K))).items :=
      congrArg Collection.items hholds.absorbed
    rw [hitems, habsorbed]
    constructor
    · rintro (ha | ⟨items, hitems, ha⟩)
      · exact ⟨p, .refl, hp, ha⟩
      · obtain ⟨q, hq, rfl⟩ := List.mem_map.mp hitems
        exact himported q (List.mem_eraseDups.mp hq) a ha
    · rintro ⟨q, hpath, hq, ha⟩
      rcases hpath.cases_head with rfl | ⟨q', himports, hpath⟩
      · exact .inl ha
      · have hq' := hbuilt.mem_imports.mpr himports
        exact .inr ⟨_, List.mem_map_of_mem (List.mem_eraseDups.mpr hq'),
          (ih q' himports (hbuilt.current q' hq')).mpr ⟨q, hpath, hq, ha⟩⟩

end Shared

end Kinds

end Store

end Bitpress
