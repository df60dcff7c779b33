import Bitpress.Compose
import Bitpress.Constant
import Bitpress.Preset
import Bitpress.Proofs.Step
import Bitpress.Query

/-!
Steps on a session that come to the same in every session.

A session only moves on: identities and unseeded choices are not taken back
(`Press.ahead`). A step is steady if what it comes to without an unseeded choice
is what it comes to in every other session, again without one. The steps of which
resolving is made are steady; making a new element is not, as it takes an
identity.
-/

namespace Bitpress

variable {α β : Type}

namespace Press

/-- Sessions move on. -/
def ahead : Rule Session where
  inv _ := True
  le s t := s.identities ≤ t.identities ∧ s.choices ≤ t.choices
  refl _ := ⟨Nat.le_refl _, Nat.le_refl _⟩
  trans h h' := ⟨Nat.le_trans h.1 h'.1, Nat.le_trans h.2 h'.2⟩

/-- A step moves the session on. -/
abbrev Advances (x : Press α) : Prop := ∀ s, Obeys.Safe ahead x s

/-- What a step comes to without an unseeded choice does not depend on the session. -/
structure Steady (x : Press α) : Prop where
  advances : Advances x
  same : ∀ s a t, effect x s = (.ok a, t) → t.choices = s.choices →
    ∀ u, ∃ v, effect x u = (.ok a, v) ∧ v.choices = u.choices

namespace Advances

theorem pure (a : α) : Advances (Pure.pure a) := fun _ => .pure trivial trivial

theorem throw (e : Error) : Advances (MonadExcept.throw e : Press α) := fun _ => .throw trivial

theorem bind {x : Press α} {f : α → Press β} (hx : Advances x) (hf : ∀ a, Advances (f a)) : Advances (x >>= f) :=
  fun s => (hx s).bind fun a t _ _ _ => hf a t

theorem warnAll (ws : List Warning) : Advances (Press.warnAll ws) :=
  fun s => .modify trivial ⟨Nat.le_refl s.identities, Nat.le_refl s.choices⟩ trivial

theorem freshId : Advances Press.freshId := fun s =>
  .of_effect (t := { s with identities := s.identities + 1 }) rfl trivial
    ⟨Nat.le_succ s.identities, Nat.le_refl s.choices⟩ fun _ _ => trivial

theorem create (name : Option String) (tags : List String) (metadata : Table Tree) :
    Advances (ElementInfo.create name tags metadata) :=
  .bind .freshId fun _ => .pure _

theorem bitOfDecl (d : BitDecl) (tags : List String) : Advances (Bit.ofDecl d tags) := by
  have hrest : Advances (do
      Press.warnAll ((d.presets.filter Bit.isReserved).map fun _ => Bit.reservedWarning (d.name.getD "<unnamed>"))
      let info ← ElementInfo.create d.name (d.tags ++ tags) (Bit.declaredMetadata d)
      Press.warnAll (DefaultsSpec.warnings d.defaults)
      return (⟨info, d.src, .ofTable d.defaults, d.presets.filter fun p => !Bit.isReserved p⟩ : Bit)) :=
    .bind (.warnAll _) fun _ => .bind (.create _ _ _) fun _ => .bind (.warnAll _) fun _ => .pure _
  unfold Bit.ofDecl
  dsimp only
  split
  · exact .bind (.throw _) fun _ => hrest
  · exact hrest

theorem constantOfDecl (d : ConstantDecl) (tags : List String) : Advances (Constant.ofDecl d tags) :=
  .bind (.create _ _ _) fun _ => .pure _

end Advances

namespace Steady

theorem pure (a : α) : Steady (Pure.pure a) :=
  ⟨.pure a, fun s b t h _ u => by cases h; exact ⟨u, rfl, rfl⟩⟩

theorem throw (e : Error) : Steady (MonadExcept.throw e : Press α) := ⟨.throw e, fun s a t h => by cases h⟩

theorem bind {x : Press α} {f : α → Press β} (hx : Steady x) (hf : ∀ a, Steady (f a)) : Steady (x >>= f) := by
  refine ⟨.bind hx.advances fun a => (hf a).advances, fun s b u h hchoices s' => ?_⟩
  obtain ⟨a, t, ha, hb⟩ := effect_bind_eq_ok.mp h
  -- Neither of the two makes a choice if both together make none.
  have hfirst : s.choices ≤ t.choices := ((hx.advances s).after ha).2.2
  have hsecond : t.choices ≤ u.choices := (((hf a).advances t).after hb).2.2
  obtain ⟨t', ha', ht'⟩ := hx.same s a t ha (by omega) s'
  obtain ⟨u', hb', hu'⟩ := (hf a).same t b u hb (by omega) t'
  exact ⟨u', effect_bind_eq_ok.mpr ⟨a, t', ha', hb'⟩, hu'.trans ht'⟩

theorem foldlM {f : β → α → Press β} (hf : ∀ b a, Steady (f b a)) (xs : List α) (b : β) : Steady (xs.foldlM f b) := by
  induction xs generalizing b with
  | nil => exact .pure b
  | cons a rest ih => exact .bind (hf b a) fun b => ih b

theorem ofOutcome (r : Outcome α) : Steady (Press.ofOutcome r) := by
  cases r with
  | error e => exact .throw e
  | ok a => exact .pure a

theorem warnAll (ws : List Warning) : Steady (Press.warnAll ws) :=
  ⟨.warnAll ws, fun _ _ _ _ _ _ => ⟨_, effect_modify _, rfl⟩⟩

theorem warn (w : Warning) : Steady (Press.warn w) := .warnAll [w]

/-- A seed gives the same words in every session; a choice without one is not steady, but it shows. -/
theorem randomSource (seed : Option Nat) : Steady (Press.randomSource seed) := by
  cases seed with
  | some seed => exact .pure _
  | none =>
    have heffect : ∀ s : Session, effect (Press.randomSource none) s =
        (.ok (s.entropy s.choices), { s with choices := s.choices + 1 }) := fun _ => rfl
    refine ⟨fun s => .of_effect (heffect s) trivial ⟨Nat.le_refl _, Nat.le_succ _⟩ fun _ _ => trivial,
      fun s a t h hchoices => ?_⟩
    rw [heffect] at h
    cases h
    exact absurd hchoices (Nat.succ_ne_self s.choices)

end Steady

end Press

open Press (Steady)

theorem Query.matching_steady [Element α] (c : Collection α) (q : QuerySpec) : Steady (Query.matching c q) := by
  have hpicked : ∀ found : Collection α, Steady (Query.picked q found) := by
    intro found
    unfold Query.picked
    split
    · unfold Query.selected
      dsimp only
      split
      · exact .bind (.randomSource _) fun _ => .pure _
      · exact .bind (.pure _) fun _ => .pure _
    · exact .pure _
  unfold Query.matching
  dsimp only
  split
  · exact .bind (.ofOutcome _) hpicked
  · exact .bind (.pure _) hpicked

theorem Preset.chosen_steady (b : Bit) (selector : Option PresetSelector) : Steady (Preset.chosen b selector) := by
  unfold Preset.chosen
  split
  · exact .bind (.warn _) fun _ => .ofOutcome _
  · exact .ofOutcome _

namespace Compose

/-- The words that an entry shuffles with. -/
def wordsFor (spec : ComposeSpec) : Press RandomSource :=
  if spec.shuffle then Press.randomSource spec.seed else pure (ChaCha.seeded 0)

/-- Adds what an entry has come to. -/
def finish (p : Progress) (name : String) (spec : ComposeSpec) : Outcome Composed → Press Progress
  | .ok made => pure (p.add name spec made)
  | .error e => throw (.within ("could not compose \u0060" ++ name ++ "\u0060") e)

theorem addEntry_eq (p : Progress) (name : String) (groups : List (List ContextValue)) (grouped : Bool)
    (spec : ComposeSpec) : addEntry p name groups grouped spec =
      wordsFor spec >>= fun source => finish p name spec (one source groups grouped spec) := by
  unfold addEntry wordsFor
  split <;> rfl

/-- An entry that succeeds adds what it has made. -/
theorem exists_add_of_addEntry {p p' : Progress} {name : String} {groups : List (List ContextValue)} {grouped : Bool}
    {spec : ComposeSpec} {s t : Session} (h : effect (addEntry p name groups grouped spec) s = (.ok p', t)) :
    ∃ made, p' = p.add name spec made := by
  rw [addEntry_eq] at h
  obtain ⟨source, u, -, h⟩ := effect_bind_eq_ok.mp h
  unfold finish at h
  split at h
  · cases h
    exact ⟨_, rfl⟩
  · cases h

theorem addEntry_steady (p : Progress) (name : String) (groups : List (List ContextValue)) (grouped : Bool)
    (spec : ComposeSpec) : Steady (addEntry p name groups grouped spec) := by
  rw [addEntry_eq]
  refine .bind ?_ fun source => ?_
  · unfold wordsFor
    split
    · exact .randomSource _
    · exact .pure _
  · cases one source groups grouped spec with
    | error e => exact .throw _
    | ok made => exact .pure _

theorem run_steady (results : Table QueryResult) (specs : Table ComposeSpec) : Steady (run results specs) := by
  refine .bind (.foldlM (fun _ _ => addEntry_steady _ _ _ _ _) _ _) fun plain => ?_
  refine .bind (.foldlM (fun p e => ?_) _ _) fun all => .pure _
  split
  · exact .bind (.warnAll _) fun _ => addEntry_steady _ _ _ _ _
  · exact .pure _

end Compose

end Bitpress
