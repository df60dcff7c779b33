import Bitpress.Load
import Bitpress.Proofs.Absorb
import Bitpress.Proofs.Fault

/-!
The elements that a registry declares.

Bits and constants are made and handed on in the same way (`Kind`). Each is made
with an identity that was not given out before, so all those of one registry can
be put in a collection (`Load.elementsOf_comes`).
-/

namespace Bitpress

variable {α δ : Type} [Element α]

/-- The identity of an element was given out while the counter of identities went from `m` to `n`. -/
def Element.Given (m n : Nat) (a : α) : Prop := ∃ k, m ≤ k ∧ k < n ∧ Element.id a = .fresh k

theorem Element.Given.mono {m n m' n' : Nat} {a : α} (h : Given m n a) (hm : m' ≤ m) (hn : n ≤ n') : Given m' n' a :=
  have ⟨k, hmk, hkn, hid⟩ := h
  ⟨k, Nat.le_trans hm hmk, Nat.lt_of_lt_of_le hkn hn, hid⟩

/-- Identities that were given out one after the other are different. -/
theorem Element.Given.ne {m n k : Nat} {a b : α} (ha : Given m n a) (hb : Given n k b) :
    Element.id a ≠ Element.id b := by
  obtain ⟨i, _, hi, ha⟩ := ha
  obtain ⟨j, hj, _, hb⟩ := hb
  rw [ha, hb]
  exact fun h => absurd (ElementId.fresh_injective h) (by omega)

/-- A kind of elements that registries declare and hand on to those that import them. -/
structure Kind (α δ : Type) where
  part : Contents → Collection α
  declared : RegistryDocument → List δ
  make : RegistryDocument → δ → Press α

namespace Kind

def bits : Kind Bit BitDecl := ⟨Contents.bits, RegistryDocument.bits, fun d decl => Bit.ofDecl decl d.tags⟩

def constants : Kind Constant ConstantDecl :=
  ⟨Contents.constants, RegistryDocument.constants, fun d decl => Constant.ofDecl decl d.tags⟩

/-- An element is made from a declaration. -/
def Makes (K : Kind α δ) (d : RegistryDocument) (decl : δ) (a : α) : Prop :=
  ∃ session, (effect (K.make d decl) session).1 = .ok a

/-- Every element gets an identity of its own. -/
def Fresh (K : Kind α δ) : Prop :=
  ∀ d decl s, Comes Press.course (K.make d decl) s fun a t => Element.Given s.identities t.identities a

/-- The elements of a registry that it declares itself; they come first. -/
def own (K : Kind α δ) (c : Contents) : List α :=
  (K.part c).items.take ((c.document.map fun d => (K.declared d).length).getD 0)

end Kind

theorem ElementInfo.create_given (name : Option String) (tags : List String) (metadata : Table Tree) (s : Session) :
    Comes Press.course (ElementInfo.create name tags metadata) s fun info t =>
      ∃ k, s.identities ≤ k ∧ k < t.identities ∧ info.id = .fresh k :=
  .of_effect (t := { s with identities := s.identities + 1 }) rfl
    (fun info h => by
      cases h
      exact ⟨trivial, Nat.le_succ _, s.identities, Nat.le_refl _, Nat.lt_succ_self _, rfl⟩)
    fun e h => by cases h

theorem Kind.bits_fresh : Kind.bits.Fresh := by
  intro d decl s
  have hrest : ∀ t : Session, s.identities ≤ t.identities → Comes Press.course (do
      Press.warnAll ((decl.presets.filter Bit.isReserved).map fun _ => Bit.reservedWarning (decl.name.getD "<unnamed>"))
      let info ← ElementInfo.create decl.name (decl.tags ++ d.tags) (Bit.declaredMetadata decl)
      Press.warnAll (DefaultsSpec.warnings decl.defaults)
      return (⟨info, decl.src, .ofTable decl.defaults, decl.presets.filter fun p => !Bit.isReserved p⟩ : Bit)) t
      fun a u => Element.Given s.identities u.identities a := by
    intro t hst
    refine ((Press.Orderly.warnAll _).comes t).bind fun _ t₁ _ hle _ => ?_
    refine (ElementInfo.create_given _ _ _ t₁).bind fun info t₂ _ _ hinfo => ?_
    refine ((Press.Orderly.warnAll _).comes t₂).bind fun _ t₃ ht₃ hle' _ => .pure ht₃ ?_
    obtain ⟨k, hk, hlt, hid⟩ := hinfo
    exact ⟨k, Nat.le_trans hst (Nat.le_trans hle hk), Nat.lt_of_lt_of_le hlt hle', hid⟩
  show Comes Press.course (Bit.ofDecl decl d.tags) s _
  unfold Bit.ofDecl
  dsimp only
  split
  · have hthrow : Comes.Safe Press.course
        (throw (.emptyFragments (decl.name.getD "<unnamed>")) : Press PUnit) s := .throw trivial
    exact hthrow.bind fun _ t _ hle _ => hrest t hle
  · exact hrest s (Nat.le_refl _)

theorem Kind.constants_fresh : Kind.constants.Fresh := by
  intro d decl s
  exact (ElementInfo.create_given _ _ _ s).bind fun info t ht _ hinfo => .pure ht hinfo

namespace Load

/-- Steps of a build that change nothing but the session. -/
def sessions : Course Building where
  inv _ := True
  le b c := (∃ session, c = { b with store := { b.store with session } }) ∧
    b.store.session.identities ≤ c.store.session.identities
  err := Error.Plain
  refl b := ⟨⟨b.store.session, rfl⟩, Nat.le_refl _⟩
  trans h h' := by
    obtain ⟨⟨_, rfl⟩, hids⟩ := h
    obtain ⟨⟨session, rfl⟩, hids'⟩ := h'
    exact ⟨⟨session, rfl⟩, Nat.le_trans hids hids'⟩

omit [Element α] in
theorem sessions_press {x : Press α} {b : Building} {post : α → Session → Prop}
    (hx : Comes Press.course x b.store.session post) :
    Comes sessions (Build.press x) b fun a c => post a c.store.session ∧ ∃ σ, (effect x σ).1 = .ok a := by
  refine .of_effect (Build.effect_press x b) (fun a ha => ?_) fun e he => hx.error e _ (Prod.ext he rfl)
  obtain ⟨_, hle, hpost⟩ := hx.ok a _ (Prod.ext ha rfl)
  exact ⟨trivial, ⟨⟨_, rfl⟩, hle⟩, hpost, _, ha⟩

/-- The elements made so far: one for each declaration, with identities that were given out since. -/
structure Made (K : Kind α δ) (d : RegistryDocument) (since now : Nat) (decls : List δ) (c : Collection α) : Prop where
  made : List.Forall₂ (K.Makes d) decls c.items
  distinct : (c.items.map Element.id).Nodup
  given : ∀ a ∈ c.items, Element.Given since now a

theorem Made.push {K : Kind α δ} {d : RegistryDocument} {since now next : Nat} {decls : List δ} {c : Collection α}
    (h : Made K d since now decls c) (hle : since ≤ now) (hnext : now ≤ next) {decl : δ} {a : α}
    (hmakes : K.Makes d decl a) (ha : Element.Given now next a) :
    c.push a = .ok ⟨c.items ++ [a]⟩ ∧ Made K d since next (decls ++ [decl]) ⟨c.items ++ [a]⟩ := by
  have hnew : Element.id a ∉ c.items.map Element.id := fun hid =>
    have ⟨b, hb, hsame⟩ := List.mem_map.mp hid
    (h.given b hb).ne ha hsame
  refine ⟨Collection.push_of_new hnew, List.rel_append h.made (.cons hmakes .nil),
    Collection.nodup_concat h.distinct hnew, fun b hb => ?_⟩
  rcases List.mem_append.mp hb with hb | hb
  · exact (h.given b hb).mono (Nat.le_refl _) hnext
  · rw [List.mem_singleton.mp hb]
    exact ha.mono hle (Nat.le_refl _)

/-- The declared elements can be made and put in a collection. -/
theorem elementsOf_comes {K : Kind α δ} (hK : K.Fresh) (d : RegistryDocument) (decls : List δ) (b : Building) :
    Comes sessions (elementsOf (K.make d) decls) b fun c t =>
      Made K d b.store.session.identities t.store.session.identities decls c := by
  unfold elementsOf
  apply Comes.foldlM_steps (C := sessions) trivial
  · exact ⟨.nil, List.nodup_nil, fun _ h => by cases h⟩
  intro done decl c s _ _ hle hc
  refine (sessions_press (hK d decl s.store.session)).bind fun a t _ hst ha => ?_
  obtain ⟨hpush, hmade⟩ := hc.push hle.2 hst.2 ha.2 ha.1
  refine .of_effect (Build.effect_ofOutcome _ t) (fun c' hc' => ?_) fun e he => ?_
  · cases hpush.symm.trans hc'
    exact ⟨trivial, sessions.refl t, hmade⟩
  · cases hpush.symm.trans he

end Load

end Bitpress
