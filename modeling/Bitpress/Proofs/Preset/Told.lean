import Bitpress.Proofs.Preset.Resolve
import Bitpress.Proofs.Store

/-!
Resolving a preset that needs itself.

In `ofChoiceTold` an answer stands in for the variables of one preset, wherever
they are asked for. A resolution that comes to a result does not depend on the
answer for the preset that it resolves (`resolve_told`): it never asked for it.
-/

namespace Bitpress

variable {α : Type}

theorem Build.effect_within_ok {context : String} {x : Build α} {s t : Building} {a : α} :
    effect (within context x) s = (.ok a, t) ↔ effect x s = (.ok a, t) := by
  rw [within, effect_tryCatch]
  rcases effect x s with ⟨_ | _, _⟩
  · exact ⟨fun h => (by cases h), fun h => (by cases h)⟩
  · exact Iff.rfl

namespace Resolver

/-- The variables of a chosen preset, with an answer in place of those of one preset. -/
def ofChoiceTold (r : Resolver) (key : PresetKey) (answer : Build Context) (room : Nat) :
    Bit → PresetChoice → Build Context :=
  match room with
  | 0 => fun _ _ => throw .depthExceeded
  | room + 1 => fun b choice =>
    if (keyOf b choice).same key then answer
    else r.resolve (overlayBy (r.ofChoiceTold key answer room)) b choice

/-- A preset is found on the trail by any key that names it. -/
theorem enter_error {key k : PresetKey} {trail : List PresetKey} (hk : k.same key = true)
    (htrail : ∃ k ∈ trail, k.same key = true) : ∃ e, enter trail k = .error e := by
  unfold enter
  split
  · rename_i hnone
    obtain ⟨k', hk', hsame⟩ := htrail
    have hne := List.findIdx?_eq_none_iff.mp hnone k' hk'
    simp only [PresetKey.same, Bool.and_eq_true, beq_iff_eq] at hk hsame hne
    simp [hk.1, hk.2, hsame.1, hsame.2] at hne
  · exact ⟨_, rfl⟩

end Resolver

/-! ### A preset on the trail -/

namespace Setting

/-- The loads of other registries leave the trail as it is, and resolve no defaults that were known. -/
structure Lends (S : Setting) (r : Resolver) (on : Table Tree → Prop) : Prop where
  trail : ∀ p s, (effect (r.depend p) s).2.trail = s.trail
  unset : ∀ {s t name q reference p c u id}, S.inv s.ground → on t → QuerySpec.Stands t name q →
    q.registry = some reference → r.library.locateFrom r.path reference = .ok p →
    effect (r.depend p) s = (.ok c, u) → (id, none) ∈ S.pairs s.ground → s.store.defaults? id = none →
    u.store.defaults? id = none

/-- A preset is on a trail and not resolved yet. -/
structure Awaits (S : Setting) (key : PresetKey) (trail : List PresetKey) (s : Building) : Prop where
  inv : S.inv s.ground
  at_trail : s.trail = trail
  entered : ∃ k ∈ trail, k.same key = true
  unset : key.preset = none → (key.bit, none) ∈ S.pairs s.ground ∧ s.store.defaults? key.bit = none

/-- Steps with the preset on the trail. -/
def awaiting (S : Setting) (key : PresetKey) (trail : List PresetKey) : Course Building where
  inv := S.Awaits key trail
  le s t := S.le s.ground t.ground
  err _ := True
  refl s := S.refl s.ground
  trans := S.trans

variable {S : Setting} {on : Table Tree → Prop} {r : Resolver} {key : PresetKey} {trail : List PresetKey}

/-- What the setting takes can be done with the preset on the trail, if it resolves no defaults that were known. -/
theorem awaiting_of_course (hS : S.Bears r on) {s : Building} {x : Build α} {post : α → Building → Prop}
    (hs : S.Awaits key trail s) (hx : Comes S.course x s post)
    (hunset : ∀ a t id, effect x s = (.ok a, t) → (id, none) ∈ S.pairs s.ground → s.store.defaults? id = none →
      t.store.defaults? id = none) : Comes (S.awaiting key trail) x s post := by
  refine ⟨fun a t ht => ?_, fun _ _ _ => trivial⟩
  obtain ⟨hinv, ⟨hle, htrail⟩, hpost⟩ := hx.ok a t ht
  refine ⟨⟨hinv, htrail.trans hs.at_trail, hs.entered, fun hnone => ?_⟩, hle, hpost⟩
  obtain ⟨hknown, hdefaults⟩ := hs.unset hnone
  exact ⟨hS.pairs_mono hle hknown, hunset a t _ ht hknown hdefaults⟩

theorem awaiting_carries (hS : S.Bears r on) (hlends : S.Lends r on) : S.Carries r on (S.awaiting key trail) where
  inv hs := hs.inv
  le hle := hle
  within _ _ _ := trivial
  still hs hx hsame := awaiting_of_course hS hs hx fun a t id ht _ hnone => (hsame a t ht id).trans hnone
  depend hs ht hq hreference hp hne := awaiting_of_course hS hs (hS.depend _ _ _ _ _ _ hs.inv ht hq hreference hp hne)
    fun _ _ _ hdepend => hlends.unset hs.inv ht hq hreference hp hdepend

end Setting

namespace Resolver

variable {S : Setting} {on : Table Tree → Prop} {r : Resolver} {key : PresetKey} {trail : List PresetKey}
  {answer : Build Context} {overlay overlay' : Bit → Option PresetSelector → Build Context} {s t : Building} {k : Pick}

open Setting

/-- What is done with a preset on the trail is what counts of a visit to it. -/
theorem visiting_tracks {k : PresetKey} {x x' : Build α} {a : α}
    (hx : Tracks.Safe (S.awaiting key (s.trail ++ [k])) x x' { s with trail := s.trail ++ [k] })
    (ht : effect (visiting k x') s = (.ok a, t)) :
    effect (visiting k x) s = (.ok a, t) ∧ S.Awaits key (s.trail ++ [k]) { t with trail := s.trail ++ [k] } ∧
      S.le s.ground t.ground ∧ t.trail = s.trail := by
  rw [effect_visiting] at ht ⊢
  cases henter : enter s.trail k with
  | error e =>
    rw [henter] at ht
    cases ht
  | ok longer =>
    rw [henter] at ht
    obtain rfl : s.trail ++ [k] = longer := by
      unfold enter at henter
      split at henter
      · exact Except.ok.inj henter
      · cases henter
    dsimp only at ht ⊢
    rcases hx' : effect x' { s with trail := s.trail ++ [k] } with ⟨_ | b, u⟩ <;> rw [hx'] at ht <;> cases ht
    obtain ⟨hu, hle, -, hxx'⟩ := hx.ok _ u hx'
    rw [hxx']
    refine ⟨rfl, ⟨hu.inv, rfl, hu.entered, hu.unset⟩, hle, ?_⟩
    show u.trail.dropLast = s.trail
    rw [hu.at_trail, List.dropLast_concat]

/-- A preset that is on the trail cannot be resolved again. -/
theorem resolve_fails {b : Bit} {choice : PresetChoice} (hsame : (keyOf b choice).same key = true)
    (hs : S.Awaits key trail s) : ∃ e t, effect (r.resolve overlay b choice) s = (.error e, t) := by
  obtain ⟨e, he⟩ := enter_error hsame hs.entered
  have hvisit : ∀ context (x : Build Context),
      effect (Build.within context (visiting (keyOf b choice) x)) s = (.error (.within context e), s) := by
    intro context x
    rw [Build.within, effect_tryCatch, effect_visiting, hs.at_trail, he]
    rfl
  cases choice with
  | defaults =>
    simp only [PresetKey.same, keyOf, Bool.and_eq_true, beq_iff_eq] at hsame
    have hunset : s.store.defaults? b.info.id = none := by
      rw [hsame.1]
      exact (hs.unset hsame.2.symm).2
    refine ⟨.within ("could not resolve defaults of bit \u0060" ++ b.label ++ "\u0060") e, s, ?_⟩
    unfold resolve
    rw [effect_bind, effect_get]
    dsimp only
    rw [hunset, effect_bind, hvisit]
  | declared place p => exact ⟨_, s, hvisit _ _⟩

section Told

variable (hS : S.Bears r on) (hlends : S.Lends r on)

include hS hlends

/-- A visit to another preset while one is on the trail. -/
theorem resolve_tracks (hs : S.Awaits key trail s) (hk : k.pair ∈ S.pairs s.ground) (hne : k.key.same key = false)
    (hrun : ∀ t ∈ k.tables, ∀ compose trail u, S.Awaits key trail u →
      Tracks.Safe (S.awaiting key trail) (r.run overlay t compose) (r.run overlay' t compose) u) :
    Tracks.Safe (S.awaiting key trail) (r.resolve overlay k.1 k.2) (r.resolve overlay' k.1 k.2) s := by
  have hlonger : S.Awaits key (s.trail ++ [k.key]) { s with trail := s.trail ++ [k.key] } := by
    obtain ⟨k', hk', hsame⟩ := hs.entered
    exact ⟨hs.inv, rfl, ⟨k', List.mem_append_left _ (hs.at_trail ▸ hk'), hsame⟩, hs.unset⟩
  have hvisit : ∀ {x x' : Build Context}, Tracks.Safe (S.awaiting key (s.trail ++ [k.key])) x x'
      { s with trail := s.trail ++ [k.key] } →
      Tracks.Safe (S.awaiting key trail) (visiting k.key x) (visiting k.key x') s := by
    intro x x' hx
    refine ⟨fun a t ht => ?_, fun _ _ _ => trivial⟩
    obtain ⟨hxx', hkept, hle, htrail⟩ := visiting_tracks hx ht
    exact ⟨⟨hkept.inv, htrail.trans hs.at_trail, hs.entered, hkept.unset⟩, hle, trivial, hxx'⟩
  have htables := ofChoice_tables (awaiting_carries hS hlends) hS k hlonger fun t ht compose u hu =>
    hrun t ht compose _ u hu
  obtain ⟨b, choice⟩ := k
  cases choice with
  | defaults =>
    refine .get_bind ?_
    split
    · exact .safe_pure hs
    · refine (Tracks.safe_rethrow (hvisit (htables.1 rfl)) fun _ _ => trivial).bind fun context u hu hle _ => ?_
      refine Tracks.bind (.refl (show Comes _ _ _ fun _ _ => True from .modify ?_ ?_ trivial)) fun _ _ hv _ _ =>
        .safe_pure hv
      · obtain ⟨hinv, hle'⟩ := hS.defaults u.ground b.info.id context hu.inv (hS.pairs_mono hle hk)
        refine ⟨hinv, hu.at_trail, hu.entered, fun hnone => ?_⟩
        have hother : key.bit ≠ b.info.id := by
          intro hid
          simp [Pick.key, keyOf, PresetKey.same, hid, hnone] at hne
        obtain ⟨hknown, hunset⟩ := hu.unset hnone
        refine ⟨hS.pairs_mono hle' hknown, ?_⟩
        show (u.store.putDefaults _ _).defaults? key.bit = none
        rw [Store.defaults?_putDefaults_of_ne _ _ hother]
        exact hunset
      · exact (hS.defaults u.ground b.info.id context hu.inv (hS.pairs_mono hle hk)).2
  | declared place p => exact .safe_rethrow (hvisit (htables.2 place p rfl)) fun _ _ => trivial

/-- The queries of a map run as they do with the answer, if presets do. -/
theorem run_told {resolve resolve' : Bit → PresetChoice → Build Context} {queries : Table Tree} (hon : on queries)
    (compose : Table Tree) (hs : S.Awaits key trail s)
    (hresolve : ∀ (k : Pick) u, S.Awaits key trail u → k.pair ∈ S.pairs u.ground → (∀ t ∈ k.tables, on t) →
      Tracks.Safe (S.awaiting key trail) (resolve k.1 k.2) (resolve' k.1 k.2) u) :
    Tracks.Safe (S.awaiting key trail) (r.run (overlayBy resolve) queries compose)
      (r.run (overlayBy resolve') queries compose) s := by
  have hC : S.Carries r on (S.awaiting key trail) := awaiting_carries hS hlends
  refine run_tracks hC hS queries compose hon hs fun t name q b u _ hu _ ht hfinds => ?_
  refine overlayBy_tracks hC hS hu hfinds fun k v hv hk => ?_
  exact hresolve k v hv (hk.pair_mem hS hv.inv) (hS.found v.ground t k hv.inv ht hk)

theorem ofChoice_told (room : Nat) (hs : S.Awaits key trail s) (hk : k.pair ∈ S.pairs s.ground)
    (hon : ∀ t ∈ k.tables, on t) :
    Tracks.Safe (S.awaiting key trail) (r.ofChoiceTold key answer room k.1 k.2) (r.ofChoice room k.1 k.2) s := by
  induction room generalizing trail s k with
  | zero => exact .throw trivial
  | succ room ih =>
    by_cases hsame : k.key.same key = true
    · obtain ⟨e, t, he⟩ : ∃ e t, effect (r.resolve (overlayBy (r.ofChoice room)) k.1 k.2) s = (.error e, t) :=
        resolve_fails hsame hs
      refine ⟨fun a t ht => ?_, fun _ _ _ => trivial⟩
      cases he.symm.trans ht
    · have htold : r.ofChoiceTold key answer (room + 1) k.1 k.2 =
          r.resolve (overlayBy (r.ofChoiceTold key answer room)) k.1 k.2 := if_neg hsame
      rw [htold]
      exact resolve_tracks hS hlends hs hk (Bool.eq_false_iff.mpr hsame) fun t ht compose _ u hu =>
        run_told hS hlends (hon t ht) compose hu fun k v hv hk hon => ih hv hk hon

/-- A preset that is resolved did not need itself. -/
theorem resolve_told (room : Nat) {context : Context} (hs : S.inv s.ground) (hk : k.pair ∈ S.pairs s.ground)
    (hon : ∀ t ∈ k.tables, on t) (h : effect (r.resolve (overlayBy (r.ofChoice room)) k.1 k.2) s = (.ok context, t)) :
    effect (r.resolve (overlayBy (r.ofChoiceTold k.key answer room)) k.1 k.2) s = (.ok context, t) := by
  have htables (hunset : k.key.preset = none → s.store.defaults? k.key.bit = none) :
      (k.2 = .defaults → Tracks.Safe (S.awaiting k.key (s.trail ++ [k.key]))
        (r.ofDefaults (overlayBy (r.ofChoiceTold k.key answer room)) k.1)
        (r.ofDefaults (overlayBy (r.ofChoice room)) k.1) { s with trail := s.trail ++ [k.key] }) ∧
      ∀ place p, k.2 = .declared place p → Tracks.Safe (S.awaiting k.key (s.trail ++ [k.key]))
        (r.ofPreset (overlayBy (r.ofChoiceTold k.key answer room)) k.1 p)
        (r.ofPreset (overlayBy (r.ofChoice room)) k.1 p) { s with trail := s.trail ++ [k.key] } :=
    ofChoice_tables (awaiting_carries hS hlends) hS k
      ⟨hs, rfl, ⟨k.key, List.mem_append_right _ (List.mem_singleton_self _), by simp [PresetKey.same]⟩,
        fun hnone => ⟨by rwa [Pick.pair, hnone] at hk, hunset hnone⟩⟩
      fun t ht compose u hu =>
        run_told hS hlends (hon t ht) compose hu fun k v hv hk hon => ofChoice_told hS hlends room hv hk hon
  obtain ⟨b, choice⟩ := k
  cases choice with
  | defaults =>
    unfold resolve at h ⊢
    rw [effect_bind, effect_get] at h ⊢
    dsimp only at h ⊢
    cases hknown : s.store.defaults? b.info.id with
    | some known =>
      rw [hknown] at h
      exact h
    | none =>
      rw [hknown] at h
      obtain ⟨made, u, hmade, h⟩ := effect_bind_eq_ok.mp h
      have hdefaults := (htables fun _ => hknown).1 rfl
      exact effect_bind_eq_ok.mpr ⟨made, u, Build.effect_within_ok.mpr
        (visiting_tracks hdefaults (Build.effect_within_ok.mp hmade)).1, h⟩
  | declared place p =>
    have hpreset := (htables fun h => by cases h).2 place p rfl
    exact Build.effect_within_ok.mpr (visiting_tracks hpreset (Build.effect_within_ok.mp h)).1

end Told

end Resolver

end Bitpress
