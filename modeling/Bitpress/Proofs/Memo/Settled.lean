import Bitpress.Proofs.Memo.Resolve

/-!
Resolving queries when all is loaded.

After a request, the defaults of all bits that a query can find are there, so that
resolving changes nothing but the session. What presets come to then is what they
come to without a memo (`Load.Reading.ofChoice_echoes`).
-/

namespace Bitpress

namespace Load

open Store Replay

/-- A registry when all is loaded. -/
structure Loaded (l : Library) (count : Nat) (t : Store) (p : Location) : Prop where
  keeping : ∃ generation, Keeping l count generation [] t
  current : t.Current p

/-- It is read with no more unseeded choices than are counted. -/
structure Reading (l : Library) (count : Nat) (t : Store) (p : Location) : Prop extends Loaded l count t p where
  choices : t.session.choices = count

variable {l : Library} {count : Nat} {t : Store} {p q : Location} {b : Bit} {s : Building} {v : Context}
  {sees : Building → Prop}

namespace Loaded

/-- Queries that are run in the store, against others that are run in it. -/
def replay (t : Store) (p : Location) (sees : Building → Prop) : Replay where
  inv g := t.session.choices ≤ g.1.session.choices ∧ g.1 = { t with session := g.1.session }
  le g h := Press.ahead.le g.1.session h.1.session
  fair g := g.1.session.choices ≤ t.session.choices
  sees := sees
  knows _ := Known (t.own .bits p) t
  refl g := Press.ahead.refl g.1.session
  trans := Press.ahead.trans
  fair_of_le h h' := Nat.le_trans h.2 h'

/-- The others are run in the store, whatever the session. -/
structure Within (t : Store) (sees : Building → Prop) : Prop where
  store : ∀ {u}, sees u → u.store = { t with session := u.store.session }
  session : ∀ {u} σ, sees u → σ.choices = u.store.session.choices →
    sees { u with store := { u.store with session := σ } }

theorem within_visits (t : Store) : Within t t.Visits where
  store hu := by
    obtain ⟨_, rfl⟩ := hu
    rfl
  session σ hu _ := by
    obtain ⟨_, rfl⟩ := hu
    exact ⟨σ, rfl⟩

/-- Nothing is different from the store but the session. -/
theorem unchanged (hs : s.store = { t with session := s.store.session }) :
    (∀ q, s.store.registry q = t.registry q) ∧ s.store.generation = t.generation ∧
      ∀ id, s.store.defaults? id = t.defaults? id := by
  rw [hs]
  exact ⟨fun _ => rfl, rfl, fun _ => rfl⟩

theorem effect_read (q : Location) (hs : s.store = { t with session := s.store.session }) :
    effect (Resolver.read q) s = if (t.registry q).isCurrent t.generation then (.ok (t.registry q).contents, s)
      else (.error (.registryNotFound q.text), s) := by
  obtain ⟨hregistry, hgeneration, -⟩ := unchanged hs
  rw [Resolver.effect_read, hregistry, hgeneration]

variable (h : Loaded l count t p)

include h

/-- Bits with the same identity are one bit, so that a bit is an own one or has another identity than all these. -/
theorem known (hq : t.Current q) (hb : b ∈ t.items .bits q) : Known (t.own .bits p) t b := by
  obtain ⟨_, hkeeping⟩ := h.keeping
  obtain ⟨q', hq', hown⟩ := hkeeping.owned q hq b hb
  by_cases hsame : ∃ a ∈ t.own .bits p, a.info.id = b.info.id
  · obtain ⟨a, ha, hid⟩ := hsame
    exact .inl (hkeeping.unique p q' h.current hq' a ha b hown hid ▸ ha)
  · exact .inr ⟨fun a ha hid => hsame ⟨a, ha, hid⟩, hkeeping.settled q b hb⟩

/-- Bits that can be found have their defaults there. -/
theorem exists_defaults (hb : Known (t.own .bits p) t b) : ∃ v, t.defaults? b.info.id = some v := by
  obtain ⟨_, hkeeping⟩ := h.keeping
  rcases hb with hb | ⟨-, hv⟩
  · exact hkeeping.settled p b (t.own_subset .bits p hb)
  · exact hv

theorem serves (hsees : Within t sees) : (replay t p sees).Serves (t.resolver l p) (t.resolver l p) where
  library := rfl
  path := rfl
  bits := rfl
  constants := rfl
  session g σ hg hahead := ⟨⟨Nat.le_trans hg.1 hahead.2, by rw [hg.2]⟩, hahead⟩
  still {g h} hg hle hfair := by
    have : t.session.choices ≤ g.1.session.choices := hg.1
    have : g.1.session.choices ≤ h.1.session.choices := hle.2
    have : h.1.session.choices ≤ t.session.choices := hfair
    omega
  sees_session σ hu := hsees.session σ hu
  knows_mono _ hb := hb
  own _ _ b hb := h.known h.current hb
  depend q s _ hs := by
    have heffect := effect_read q hs.2
    by_cases hq : (t.registry q).isCurrent t.generation = true
    · rw [if_pos hq] at heffect
      refine .of_effect heffect hs ⟨Press.ahead.refl _, rfl⟩ fun c hc => ?_
      cases hc
      exact ⟨fun b hb => h.known hq hb,
        fun _ => ⟨0, fun _ _ u hu => ⟨u, (effect_read q (hsees.store hu)).trans (if_pos hq), hu⟩⟩⟩
    · rw [if_neg hq] at heffect
      exact .of_effect heffect hs ⟨Press.ahead.refl _, rfl⟩ fun c hc => by cases hc

end Loaded

namespace Reading

open Loaded

/-- What a registry resolves afresh. -/
abbrev afresh (l : Library) (t : Store) (p : Location) (room : Nat) (b : Bit) (choice : PresetChoice) : Build Context :=
  (t.resolver l p).ofChoiceAfresh (t.own .bits p) room b choice

variable (h : Reading l count t p)

include h

/-- The defaults that are there are those that are worked out afresh. -/
theorem repeats_defaults (hb : Known (t.own .bits p) t b) (hv : t.defaults? b.info.id = some v) :
    Repeats t.Visits (fun n => afresh l t p n b .defaults) v := by
  obtain ⟨_, hkeeping⟩ := h.keeping
  rcases hb with hb | ⟨hother, -⟩
  · obtain ⟨w, hw, hgives⟩ := hkeeping.faithful p h.current t (.refl t) h.choices b hb
    cases hv.symm.trans hw
    exact givesAfresh_iff.mp hgives
  · exact repeats_lent hother hv (t.resolver l p)

/-- A preset comes to what it comes to afresh. -/
theorem ofChoice_echoes (room : Nat) (choice : PresetChoice) (hs : (replay t p t.Visits).inv s.ground)
    (hb : Known (t.own .bits p) t b) :
    (replay t p t.Visits).Echoes ((t.resolver l p).ofChoice room b choice) s (fun n => afresh l t p n b choice)
      fun _ _ => True := by
  refine Resolver.ofChoice_echoes (h.serves (within_visits t)) (fun _ _ _ _ => rfl) (fun room b s hs hb _ => ?_) room choice
    hs hb
  refine .get_bind ?_
  obtain ⟨v, hv⟩ := h.exists_defaults hb
  dsimp only
  rw [(unchanged hs.2).2.2, hv]
  exact .pure hs ⟨trivial, fun _ => h.repeats_defaults hb hv⟩

end Reading

end Load

end Bitpress
