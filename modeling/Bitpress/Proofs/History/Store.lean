import Bitpress.Proofs.History.Session
import Bitpress.Proofs.Load.Build
import Bitpress.Proofs.Store

/-!
Two stores in which the same request is under way.

The stores may remember different things from before. They are alike
(`Runs.stores`) when, of the registries that the first run loads besides the one
that is asked for, the same were loaded in full, and when what the two runs have
loaded and resolved themselves is the same but for the shift of identities. A
build reads nothing else of its store (`Runs.buildings`).
-/

namespace Bitpress

open Likeness Store

variable {α β γ δ : Type}

namespace Runs

/-- Contents that the first run has made. -/
structure Sound (R : Runs) (c : Contents) : Prop where
  bits : ∀ b ∈ c.bits.items, R.bits.good b
  document : ∀ d, c.document = some d → d.AllTexts R.Fixed

def contents (R : Runs) : Tie Contents Contents := ⟨Contents.rename R.rename, R.Sound⟩

/-- Nothing is remembered of identities that are not given out. -/
def Known (R : Runs) (s : Store) : Prop :=
  ∀ id v, s.defaults? id = some v → id.value < ElementId.firstFresh + R.last

/-- The first run has used more than it was allowed, or loaded a registry that it does not load. -/
def Spent (R : Runs) (s : Store) : Prop :=
  R.sessions.spent s.session ∨ ∃ p mode, .loading p mode ∈ s.trace.drop R.told ∧ ¬ R.touched p

/-- Stores that are alike, in which the registries `held` are loaded. -/
structure Stores (R : Runs) (held : List Location) (s t : Store) : Prop where
  session : R.Sessions s.session t.session
  told : R.told ≤ s.trace.length
  left : s.generation = R.left
  right : t.generation = R.right
  full : ∀ q, q ≠ R.root → R.touched q → ((s.registry q).mode = some .full ↔ (t.registry q).mode = some .full)
  current : ∀ q, (t.registry q).isCurrent R.right = (s.registry q).isCurrent R.left
  contents : ∀ q, (s.registry q).isCurrent R.left = true →
    (t.registry q).contents = R.contents.image (s.registry q).contents ∧ R.contents.good (s.registry q).contents
  defaults : ∀ id, R.Young id → t.defaults? (R.rename id) = (s.defaults? id).map (Context.rename R.rename)
  known : R.Known s
  held : ∀ q ∈ held, (s.registry q).isCurrent R.left = true

def stores (R : Runs) (held : List Location) : Likeness Store where
  alike := R.Stores held
  spent := R.Spent
  left := R.Known
  left_of_alike h := h.known

/-- Trails through the same presets. -/
def Trails (R : Runs) (trail trail' : List PresetKey) : Prop :=
  trail'.map (fun k => (k.bit, k.preset)) = trail.map fun k => (R.rename k.bit, k.preset)

/-- Builds that are alike have used the same registries, and are resolving the same presets. -/
def buildings (R : Runs) (held : List Location) : Likeness Building where
  alike b c := R.Stores (held ++ b.dependencies) b.store c.store ∧ c.dependencies = b.dependencies ∧
    R.Trails b.trail c.trail
  spent b := R.Spent b.store
  left b := R.Known b.store
  left_of_alike h := h.1.known

variable {R : Runs} {held : List Location} {C : Prop} {s t : Store}

/-! ### What changes stores -/

theorem Stores.withSession (h : R.Stores held s t) {σ τ : Session} (hst : R.Sessions σ τ) :
    R.Stores held { s with session := σ } { t with session := τ } :=
  { h with session := hst }

theorem Stores.mono (h : R.Stores held s t) {fewer : List Location} (hsub : fewer ⊆ held) :
    R.Stores fewer s t :=
  { h with held := fun q hq => h.held q (hsub hq) }

theorem Stores.putDefaults (h : R.Stores held s t) {id : ElementId} (hid : R.Young id) (c : Context) :
    R.Stores held (s.putDefaults id c) (t.putDefaults (R.rename id) (c.rename R.rename)) := by
  have hs := putDefaults_registry s id c
  have ht := putDefaults_registry t (R.rename id) (c.rename R.rename)
  refine ⟨?_, ?_, ?_, ?_, fun q hq => ?_, fun q => ?_, fun q hq => ?_, fun other hother => ?_, fun other v hv => ?_,
    fun q hq => ?_⟩
  · rw [putDefaults_session, putDefaults_session]
    exact h.session
  · rw [putDefaults_trace]
    exact h.told
  · rw [putDefaults_generation]
    exact h.left
  · rw [putDefaults_generation]
    exact h.right
  · rw [hs, ht]
    exact h.full q hq
  · rw [hs, ht]
    exact h.current q
  · rw [hs] at hq ⊢
    rw [ht]
    exact h.contents q hq
  · by_cases hsame : other = id
    · subst hsame
      rw [defaults?_putDefaults_self, defaults?_putDefaults_self, h.defaults other hid]
      cases s.defaults? other <;> rfl
    · have hne : R.rename other ≠ R.rename id := fun he => hsame (R.rename_injective he)
      rw [defaults?_putDefaults_of_ne _ _ hsame, defaults?_putDefaults_of_ne _ _ hne]
      exact h.defaults other hother
  · by_cases hsame : other = id
    · rw [hsame]
      exact hid.2
    · rw [defaults?_putDefaults_of_ne _ _ hsame] at hv
      exact h.known other v hv
  · rw [hs]
    exact h.held q hq

/-- The registry of one file is replaced in both stores. -/
theorem Stores.put {more : List Location} {x y : Registry} (h : R.Stores held s t) (hpath : y.path = x.path)
    (hfull : x.path ≠ R.root → R.touched x.path → (x.mode = some .full ↔ y.mode = some .full))
    (hcurrent : y.isCurrent R.right = x.isCurrent R.left)
    (hcontents : x.isCurrent R.left = true → y.contents = R.contents.image x.contents ∧ R.contents.good x.contents)
    (hheld : ∀ q ∈ more, if q = x.path then x.isCurrent R.left = true else q ∈ held) :
    R.Stores more (s.put x) (t.put y) := by
  have hself : (s.put x).registry x.path = x ∧ (t.put y).registry x.path = y :=
    ⟨registry_put_self s x, hpath ▸ registry_put_self t y⟩
  have hother : ∀ q, q ≠ x.path → (s.put x).registry q = s.registry q ∧ (t.put y).registry q = t.registry q :=
    fun q hq => ⟨registry_put_of_ne s hq, registry_put_of_ne t (hpath ▸ hq)⟩
  refine ⟨h.session, h.told, h.left, h.right, fun q hq => ?_, fun q => ?_, fun q => ?_, h.defaults, h.known, fun q hq => ?_⟩
  · by_cases hx : q = x.path
    · subst hx
      rw [hself.1, hself.2]
      exact hfull hq
    · rw [(hother q hx).1, (hother q hx).2]
      exact h.full q hq
  · by_cases hx : q = x.path
    · subst hx
      rw [hself.1, hself.2]
      exact hcurrent
    · rw [(hother q hx).1, (hother q hx).2]
      exact h.current q
  · by_cases hx : q = x.path
    · subst hx
      rw [hself.1, hself.2]
      exact hcontents
    · rw [(hother q hx).1, (hother q hx).2]
      exact h.contents q
  · have hq := hheld q hq
    by_cases hx : q = x.path
    · rw [if_pos hx] at hq
      rw [hx, hself.1]
      exact hq
    · rw [if_neg hx] at hq
      rw [(hother q hx).1]
      exact h.held q hq

/-- What is said about loads does not matter. -/
theorem Stores.say (h : R.Stores held s t) (e e' : LoadEvent) : R.Stores held (s.say e) (t.say e') :=
  have htold : R.told ≤ (s.trace ++ [e]).length := Nat.le_trans h.told (by simp)
  ⟨h.session, htold, h.left, h.right, h.full, h.current, h.contents, h.defaults, h.known, h.held⟩

/-! ### Steps of builds -/

theorem press_alike {x : Press α} {y : Press β} {T : Tie α β} (h : R.sessions.Alike C x y T) :
    (R.buildings held).Alike C (Build.press x) (Build.press y) T := by
  refine ⟨fun b hb => ?_, fun hC b c hbc hspent => ?_⟩
  · rw [Build.effect_press]
    exact hb.imp (h.spent b.store.session) id
  · rw [Build.effect_press] at hspent ⊢
    rw [Build.effect_press]
    have hends := h.ends hC b.store.session c.store.session hbc.1.session fun hs => hspent (.inl hs)
    revert hends
    rcases effect x b.store.session with ⟨_ | a, σ⟩ <;> rcases effect y c.store.session with ⟨_ | a', τ⟩
    · exact fun _ => hbc.1.known
    · exact id
    · exact id
    · exact fun ⟨ha, hgood, hst⟩ => ⟨ha, hgood, hbc.1.withSession hst, hbc.2⟩

theorem within_alike {x : Build α} {y : Build β} {T : Tie α β} (context context' : String)
    (h : (R.buildings held).Alike C x y T) :
    (R.buildings held).Alike C (Build.within context x) (Build.within context' y) T :=
  .rethrow _ _ h

theorem outcome_alike {x : Outcome α} {y : Outcome β} {T : Tie α β} (h : Outcome.Mirrors T.image x y)
    (hgood : C → ∀ a, x = .ok a → T.good a) :
    (R.buildings held).Alike C (Build.ofOutcome x) (Build.ofOutcome y) T :=
  .of_outcome (Build.effect_ofOutcome x) (Build.effect_ofOutcome y) h hgood

/-- What follows two outcomes has to be alike only where both are successes. -/
theorem outcome_bind {x : Outcome α} {y : Outcome β} {f : α → Build γ} {g : β → Build δ} {T : Tie γ δ}
    (h : x.toOption.isSome = y.toOption.isSome)
    (hf : ∀ a b, x = .ok a → y = .ok b → (R.buildings held).Alike C (f a) (g b) T) :
    (R.buildings held).Alike C (Build.ofOutcome x >>= f) (Build.ofOutcome y >>= g) T := by
  cases x with
  | error e =>
    cases y with
    | error e' => exact .throw_bind e e' f g
    | ok b => cases h
  | ok a =>
    cases y with
    | error e' => cases h
    | ok b => exact hf a b rfl rfl

theorem mirrors_bind {h : α → β} {x : Outcome α} {y : Outcome β} {f : α → Build γ} {g : β → Build δ} {T : Tie γ δ}
    (hx : Outcome.Mirrors h x y) (hf : ∀ a, x = .ok a → (R.buildings held).Alike C (f a) (g (h a)) T) :
    (R.buildings held).Alike C (Build.ofOutcome x >>= f) (Build.ofOutcome y >>= g) T := by
  refine outcome_bind ?_ fun a b ha hb => ?_
  · rw [show y.toOption = x.toOption.map h from hx, Option.isSome_map]
  · subst ha hb
    cases hx
    exact hf a rfl

/-- What follows one outcome. -/
theorem same_bind (x : Outcome α) {f : α → Build γ} {g : α → Build δ} {T : Tie γ δ}
    (hf : ∀ a, x = .ok a → (R.buildings held).Alike C (f a) (g a) T) :
    (R.buildings held).Alike C (Build.ofOutcome x >>= f) (Build.ofOutcome x >>= g) T :=
  mirrors_bind (.same x) hf

/-- The dependencies of two builds are the same. -/
theorem dependencies_alike {f : Building → Build α} {g : Building → Build β} {T : Tie α β}
    (h : ∀ b c, c.dependencies = b.dependencies → (R.buildings held).Alike C (f b) (g c) T) :
    (R.buildings held).Alike C (getThe Building >>= f) (getThe Building >>= g) T :=
  ⟨fun b hb => (h b b rfl).spent b hb, fun hC b c hbc hspent => (h b c hbc.2.1).ends hC b c hbc hspent⟩

/-- The resolved defaults of a bit that the first run has made. -/
theorem defaults_alike {id : ElementId} (hid : C → R.Young id) {f : Context → Build α} {g : Context → Build β}
    {x : Build α} {y : Build β} {T : Tie α β}
    (hsome : ∀ v, (R.buildings held).Alike C (f v) (g (v.rename R.rename)) T)
    (hnone : (R.buildings held).Alike C x y T) :
    (R.buildings held).Alike C
      (getThe Building >>= fun b => match b.store.defaults? id with
        | some v => f v
        | none => x)
      (getThe Building >>= fun b => match b.store.defaults? (R.rename id) with
        | some v => g v
        | none => y) T := by
  refine ⟨fun b hb => ?_, fun hC b c hbc => ?_⟩
  · show R.Spent (effect (match b.store.defaults? id with
      | some v => f v
      | none => x) b).2.store
    cases b.store.defaults? id with
    | none => exact hnone.spent b hb
    | some v => exact (hsome v).spent b hb
  · show ¬ R.Spent (effect (match b.store.defaults? id with
        | some v => f v
        | none => x) b).2.store →
      (R.buildings held).Ends T
        (effect (match b.store.defaults? id with
          | some v => f v
          | none => x) b)
        (effect (match c.store.defaults? (R.rename id) with
          | some v => g v
          | none => y) c)
    rw [hbc.1.defaults id (hid hC)]
    cases b.store.defaults? id with
    | none => exact hnone.ends hC b c hbc
    | some v => exact (hsome v).ends hC b c hbc

theorem putDefaults_alike {id : ElementId} (hid : C → R.Young id) (c : Context) :
    (R.buildings held).Alike C
      (modifyThe Building fun b => { b with store := b.store.putDefaults id c })
      (modifyThe Building fun b => { b with store := b.store.putDefaults (R.rename id) (c.rename R.rename) }) .same := by
  refine ⟨fun b hb => ?_, fun hC b d hbd _ => ⟨rfl, trivial, hbd.1.putDefaults (hid hC) c, hbd.2⟩⟩
  show R.Spent (b.store.putDefaults id c)
  unfold Spent
  rw [putDefaults_session, putDefaults_trace]
  exact hb

end Runs

end Bitpress
