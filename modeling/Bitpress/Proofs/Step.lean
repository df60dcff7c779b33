import Bitpress.Proofs.Outcome
import Bitpress.Resolution
import Mathlib.Data.List.Forall2

/-!
Steps that may fail and that may change a state.

`effect` is what a step gives and leaves. A `Passage` is a pair of relations
between the states before and after a step, one for steps that succeed and one
for steps that fail with an error, such that steps in a row keep it if each of
them does. Only loads put registries into an error; what fails by itself blames
none.

A `Rule` is an invariant of states and an order in which they move. A step obeys
it (`Obeys`) if it ends in a later state of the invariant, whether it fails or not,
and if its result is as asked where it comes to one. As the order is part of every
lemma, what was known of earlier states can be carried along.
-/

namespace Bitpress

variable {σ α β : Type}

/-- What a step gives and leaves, from a state. -/
def effect (x : ExceptT Error (StateM σ) α) (s : σ) : Outcome α × σ := StateT.run (ExceptT.run x) s

section Perform
variable {s : σ}

theorem effect_pure (a : α) : effect (pure a : ExceptT Error (StateM σ) α) s = (.ok a, s) := rfl

theorem effect_throw (e : Error) : effect (throw e : ExceptT Error (StateM σ) α) s = (.error e, s) := rfl

theorem effect_bind (x : ExceptT Error (StateM σ) α) (f : α → ExceptT Error (StateM σ) β) :
    effect (x >>= f) s = match effect x s with
      | (.ok a, t) => effect (f a) t
      | (.error e, t) => (.error e, t) := by
  unfold effect ExceptT.run StateT.run
  simp only [bind, ExceptT.bind, ExceptT.mk, StateT.bind]
  rcases x s with ⟨r, t⟩
  cases r <;> rfl

theorem effect_tryCatch (x : ExceptT Error (StateM σ) α) (handle : Error → ExceptT Error (StateM σ) α) :
    effect (tryCatch x handle) s = match effect x s with
      | (.ok a, t) => (.ok a, t)
      | (.error e, t) => effect (handle e) t := by
  unfold effect ExceptT.run StateT.run
  simp only [tryCatch, tryCatchThe, MonadExceptOf.tryCatch, ExceptT.tryCatch, ExceptT.mk, bind, StateT.bind]
  rcases x s with ⟨r, t⟩
  cases r <;> rfl

theorem effect_get : effect (getThe σ : ExceptT Error (StateM σ) σ) s = (.ok s, s) := rfl

theorem effect_set (t : σ) : effect (set t : ExceptT Error (StateM σ) PUnit) s = (.ok ⟨⟩, t) := rfl

theorem effect_modify (f : σ → σ) :
    effect (modifyThe σ f : ExceptT Error (StateM σ) PUnit) s = (.ok ⟨⟩, f s) := rfl

/-- A sequence of steps succeeds when both do. -/
theorem effect_bind_eq_ok {x : ExceptT Error (StateM σ) α} {f : α → ExceptT Error (StateM σ) β} {b : β} {u : σ} :
    effect (x >>= f) s = (.ok b, u) ↔ ∃ a t, effect x s = (.ok a, t) ∧ effect (f a) t = (.ok b, u) := by
  rw [effect_bind]
  rcases effect x s with ⟨r, t⟩
  cases r with
  | error e =>
    constructor
    · intro h; cases h
    · rintro ⟨_, _, ⟨⟩, _⟩
  | ok a =>
    constructor
    · intro h; exact ⟨a, t, rfl, h⟩
    · rintro ⟨_, _, ⟨⟩, h⟩; exact h

/-- It fails when the first one does, or the second one after it. -/
theorem effect_bind_eq_error {x : ExceptT Error (StateM σ) α} {f : α → ExceptT Error (StateM σ) β} {e : Error} {u : σ} :
    effect (x >>= f) s = (.error e, u) ↔
      effect x s = (.error e, u) ∨ ∃ a t, effect x s = (.ok a, t) ∧ effect (f a) t = (.error e, u) := by
  rw [effect_bind]
  rcases effect x s with ⟨r, t⟩
  cases r with
  | error e' =>
    constructor
    · intro h; cases h; exact .inl rfl
    · rintro (h | ⟨_, _, hfirst, _⟩)
      · cases h; rfl
      · cases hfirst
  | ok a =>
    constructor
    · intro h; exact .inr ⟨a, t, rfl, h⟩
    · rintro (h | ⟨_, _, hfirst, h⟩)
      · cases h
      · cases hfirst; exact h

/-- Steps one after another fail when one of them does. -/
theorem effect_mapM_of_error {f : α → ExceptT Error (StateM σ) β} {done rest : List α} {a : α} {made : List β} {t u : σ}
    {e : Error} (hdone : effect (done.mapM f) s = (.ok made, t)) (ha : effect (f a) t = (.error e, u)) :
    effect ((done ++ a :: rest).mapM f) s = (.error e, u) := by
  rw [List.mapM_append, effect_bind, hdone]
  dsimp only
  rw [List.mapM_cons, effect_bind, effect_bind, ha]

/-- What is done at last is done after a failure too. -/
theorem effect_finally (x : ExceptT Error (StateM σ) PUnit) (f : σ → σ) :
    effect (try x finally modifyThe σ f) s = ((effect x s).1, f (effect x s).2) := by
  unfold effect ExceptT.run StateT.run
  simp only [tryFinally, tryFinally', ExceptT.mk, bind, StateT.bind, Functor.map, ExceptT.map]
  rcases x s with ⟨_ | a, t⟩ <;> rfl

end Perform

theorem Press.effect_ofOutcome (r : Outcome α) (s : Session) : effect (ofOutcome r) s = (r, s) := by
  cases r <;> rfl

theorem StoreM.effect_press (x : Press α) (s : Store) :
    effect (StoreM.press x) s = ((effect x s.session).1, { s with session := (effect x s.session).2 }) := by
  unfold StoreM.press
  rw [effect_bind, effect_get]
  change effect (do set { s with session := (x s.session).2 }; _) s =
    ((x s.session).1, { s with session := (x s.session).2 })
  rw [effect_bind, effect_set]
  dsimp only
  cases (x s.session).1 <;> rfl

namespace Build

theorem effect_onStore (x : StoreM α) (b : Building) :
    effect (onStore x) b = ((effect x b.store).1, { b with store := (effect x b.store).2 }) := by
  unfold onStore
  rw [effect_bind, effect_get]
  change effect (do set { b with store := (x b.store).2 }; _) b = ((x b.store).1, { b with store := (x b.store).2 })
  rw [effect_bind, effect_set]
  dsimp only
  cases (x b.store).1 <;> rfl

theorem effect_press (x : Press α) (b : Building) :
    effect (press x) b = ((effect x b.store.session).1,
      { b with store := { b.store with session := (effect x b.store.session).2 } }) := by
  rw [press, effect_onStore, StoreM.effect_press]

/-- A step of the session that succeeds in a build succeeds in the session. -/
theorem effect_of_press_eq_ok {x : Press α} {a : α} {b c : Building} (h : effect (press x) b = (.ok a, c)) :
    effect x b.store.session = (.ok a, c.store.session) := by
  rw [effect_press] at h
  cases h' : effect x b.store.session
  rw [h'] at h
  cases h
  rfl

theorem effect_ofOutcome (r : Outcome α) (b : Building) : effect (ofOutcome r) b = (r, b) := by
  cases r <;> rfl

end Build

theorem Resolver.effect_visiting (key : PresetKey) (x : Build α) (b : Building) :
    effect (visiting key x) b = match enter b.trail key with
      | .error e => (.error e, b)
      | .ok trail => ((effect x { b with trail }).1,
          { (effect x { b with trail }).2 with trail := (effect x { b with trail }).2.trail.dropLast }) := by
  show StateT.run (ExceptT.run (ExceptT.mk fun b => _)) b = _
  dsimp only [ExceptT.run, ExceptT.mk, StateT.run]
  cases enter b.trail key <;> rfl

/-! ### Passages -/

/-- Relations between the states before and after steps. -/
structure Passage (σ : Type) where
  ok : σ → σ → Prop
  err : Error → σ → σ → Prop
  refl : ∀ s, ok s s
  trans : ∀ {s t u}, ok s t → ok t u → ok s u
  fail : ∀ {e : Error}, e.Blameless → ∀ s, err e s s
  wrap : ∀ {e s t}, err e s t → ∀ context, err (.within context e) s t
  trans_err : ∀ {e s t u}, ok s t → err e t u → err e s u

namespace Passage

/-- The relation that a result asks for. -/
def Between (P : Passage σ) (s : σ) : Outcome α → σ → Prop
  | .ok _, t => P.ok s t
  | .error e, t => P.err e s t

/-- The states before and after a step are as the passage says, from wherever it starts. -/
structure Keeps (P : Passage σ) (x : ExceptT Error (StateM σ) α) : Prop where
  between : ∀ s, P.Between s (effect x s).1 (effect x s).2

variable {P : Passage σ}

theorem Keeps.of_ok {x : ExceptT Error (StateM σ) α} {s t : σ} {a : α} (hx : P.Keeps x)
    (h : effect x s = (.ok a, t)) : P.ok s t := by
  have := hx.between s
  rw [h] at this
  exact this

theorem Keeps.of_error {x : ExceptT Error (StateM σ) α} {s t : σ} {e : Error} (hx : P.Keeps x)
    (h : effect x s = (.error e, t)) : P.err e s t := by
  have := hx.between s
  rw [h] at this
  exact this

/-- A passage that is kept keeps any weaker one. -/
theorem Keeps.mono {Q : Passage σ} {x : ExceptT Error (StateM σ) α} (hx : P.Keeps x)
    (hok : ∀ s t, P.ok s t → Q.ok s t) (herr : ∀ e s t, P.err e s t → Q.err e s t) : Q.Keeps x := by
  refine ⟨fun s => ?_⟩
  rcases h : effect x s with ⟨r, t⟩
  cases r with
  | error e => exact herr e s t (hx.of_error h)
  | ok a => exact hok s t (hx.of_ok h)

theorem Keeps.pure (a : α) : P.Keeps (Pure.pure a) := ⟨P.refl⟩

theorem Keeps.throw {e : Error} (h : e.Blameless) : P.Keeps (MonadExcept.throw e : ExceptT Error (StateM σ) α) :=
  ⟨P.fail h⟩

theorem Keeps.get : P.Keeps (getThe σ) := ⟨P.refl⟩

theorem Keeps.modify {f : σ → σ} (h : ∀ s, P.ok s (f s)) : P.Keeps (modifyThe σ f) := ⟨h⟩

theorem Keeps.bind {x : ExceptT Error (StateM σ) α} {f : α → ExceptT Error (StateM σ) β} (hx : P.Keeps x)
    (hf : ∀ a, P.Keeps (f a)) : P.Keeps (x >>= f) := by
  refine ⟨fun s => ?_⟩
  rw [effect_bind]
  rcases h : effect x s with ⟨r, t⟩
  cases r with
  | error e => exact hx.of_error h
  | ok a =>
    show P.Between s (effect (f a) t).1 (effect (f a) t).2
    rcases h' : effect (f a) t with ⟨r', u⟩
    cases r' with
    | error e => exact P.trans_err (hx.of_ok h) ((hf a).of_error h')
    | ok b => exact P.trans (hx.of_ok h) ((hf a).of_ok h')

theorem Keeps.map {x : ExceptT Error (StateM σ) α} (f : α → β) (hx : P.Keeps x) : P.Keeps (f <$> x) := by
  rw [map_eq_pure_bind]
  exact .bind hx fun _ => .pure _

/-- A step with a sentence around its error. -/
theorem Keeps.rethrow {x : ExceptT Error (StateM σ) α} (context : String) (hx : P.Keeps x) :
    P.Keeps (tryCatch x fun e => MonadExcept.throw (.within context e)) := by
  refine ⟨fun s => ?_⟩
  rw [effect_tryCatch]
  rcases h : effect x s with ⟨r, t⟩
  cases r with
  | error e => exact P.wrap (hx.of_error h) context
  | ok a => exact hx.of_ok h

theorem Keeps.foldlM {f : β → α → ExceptT Error (StateM σ) β} (hf : ∀ b a, P.Keeps (f b a)) (xs : List α)
    (b : β) : P.Keeps (xs.foldlM f b) := by
  induction xs generalizing b with
  | nil => exact .pure b
  | cons a rest ih => exact .bind (hf b a) fun b => ih b

theorem Keeps.mapM {f : α → ExceptT Error (StateM σ) β} (hf : ∀ a, P.Keeps (f a)) (xs : List α) :
    P.Keeps (xs.mapM f) := by
  induction xs with
  | nil => exact .pure []
  | cons a rest ih =>
    rw [List.mapM_cons]
    exact .bind (hf a) fun _ => .bind ih fun _ => .pure _

theorem Keeps.forIn {xs : List α} {f : α → β → ExceptT Error (StateM σ) (ForInStep β)}
    (hf : ∀ a ∈ xs, ∀ b, P.Keeps (f a b)) (b : β) : P.Keeps (forIn xs b f) := by
  induction xs generalizing b with
  | nil => exact .pure b
  | cons a rest ih =>
    obtain ⟨hfirst, hrest⟩ := List.forall_mem_cons.mp hf
    rw [List.forIn_cons]
    refine .bind (hfirst b) fun step => ?_
    cases step with
    | done b => exact .pure b
    | yield b => exact ih hrest b

/-- What each step of a sequence ends with holds at the end of the sequence, if the steps after it
leave it so. -/
theorem Keeps.forall_mapM {f : α → ExceptT Error (StateM σ) β} {pre : σ → Prop} (good : α → β → σ → Prop)
    (hf : ∀ a, P.Keeps (f a)) (hpre : ∀ s t, pre s → P.ok s t → pre t)
    (hgood : ∀ a s b t, pre s → effect (f a) s = (.ok b, t) → good a b t)
    (hstable : ∀ a b s t, pre s → P.ok s t → good a b s → good a b t) {xs : List α} {ys : List β} {s t : σ}
    (hs : pre s) (h : effect (xs.mapM f) s = (.ok ys, t)) :
    (∀ a ∈ xs, ∃ b, good a b t) ∧ ∀ b ∈ ys, ∃ a, good a b t := by
  induction xs generalizing ys s with
  | nil =>
    cases h
    exact ⟨fun a ha => (by cases ha), fun b hb => (by cases hb)⟩
  | cons a rest ih =>
    rw [List.mapM_cons] at h
    obtain ⟨b, s₁, hb, h⟩ := effect_bind_eq_ok.mp h
    obtain ⟨bs, s₂, hbs, h⟩ := effect_bind_eq_ok.mp h
    cases h
    have hs₁ : pre s₁ := hpre s s₁ hs ((hf a).of_ok hb)
    have hfirst : good a b t :=
      hstable a b s₁ t hs₁ ((Keeps.mapM hf rest).of_ok hbs) (hgood a s b s₁ hs hb)
    obtain ⟨hleft, hright⟩ := ih hs₁ hbs
    exact ⟨List.forall_mem_cons.mpr ⟨⟨b, hfirst⟩, hleft⟩, List.forall_mem_cons.mpr ⟨⟨a, hfirst⟩, hright⟩⟩

/-- A step that fails leaves the states as the passage says. -/
structure Fails (P : Passage σ) (x : ExceptT Error (StateM σ) α) : Prop where
  error : ∀ s e t, effect x s = (.error e, t) → P.err e s t

theorem Keeps.fails {x : ExceptT Error (StateM σ) α} (hx : P.Keeps x) : P.Fails x := ⟨fun _ _ _ => hx.of_error⟩

theorem Fails.bind {x : ExceptT Error (StateM σ) α} {f : α → ExceptT Error (StateM σ) β} (hx : P.Keeps x)
    (hf : ∀ a, P.Fails (f a)) : P.Fails (x >>= f) := by
  refine ⟨fun s e u h => ?_⟩
  rcases effect_bind_eq_error.mp h with hfirst | ⟨a, t, hfirst, hsecond⟩
  · exact hx.of_error hfirst
  · exact P.trans_err (hx.of_ok hfirst) ((hf a).error t e u hsecond)

theorem Fails.bind_pure {x : ExceptT Error (StateM σ) α} {b : β} (hx : P.Fails x) :
    P.Fails (x >>= fun _ => Pure.pure b) := by
  refine ⟨fun s e u h => ?_⟩
  rcases effect_bind_eq_error.mp h with hfirst | ⟨a, t, -, hsecond⟩
  · exact hx.error s e u hfirst
  · cases hsecond

end Passage

/-! ### Rules -/

structure Rule (σ : Type) where
  inv : σ → Prop
  le : σ → σ → Prop
  refl : ∀ s, le s s
  trans : ∀ {s t u}, le s t → le t u → le s u

/-- What a step does from a state of the invariant. -/
structure Obeys (R : Rule σ) (x : ExceptT Error (StateM σ) α) (s : σ) (post : α → σ → Prop) : Prop where
  inv : R.inv (effect x s).2
  le : R.le s (effect x s).2
  ok : ∀ a t, effect x s = (.ok a, t) → post a t

namespace Obeys

variable {R : Rule σ} {s t : σ} {x : ExceptT Error (StateM σ) α} {post : α → σ → Prop}

/-- What a step does, seen from its effect. -/
theorem of_effect {r : Outcome α} (h : effect x s = (r, t)) (hinv : R.inv t) (hle : R.le s t)
    (hok : ∀ a, r = .ok a → post a t) : Obeys R x s post := by
  refine ⟨by rw [h]; exact hinv, by rw [h]; exact hle, fun a u hu => ?_⟩
  cases h.symm.trans hu
  exact hok a rfl

theorem after {r : Outcome α} (hx : Obeys R x s post) (h : effect x s = (r, t)) : R.inv t ∧ R.le s t := by
  have hinv := hx.inv
  have hle := hx.le
  rw [h] at hinv hle
  exact ⟨hinv, hle⟩

theorem pure {a : α} (hs : R.inv s) (h : post a s) : Obeys R (Pure.pure a) s post :=
  of_effect (effect_pure a) hs (R.refl s) fun b hb => by cases hb; exact h

theorem throw {e : Error} (hs : R.inv s) :
    Obeys R (MonadExcept.throw e : ExceptT Error (StateM σ) α) s post :=
  of_effect (effect_throw e) hs (R.refl s) fun a ha => by cases ha

theorem bind {f : α → ExceptT Error (StateM σ) β} {post' : β → σ → Prop} (hx : Obeys R x s post)
    (hf : ∀ a t, R.inv t → R.le s t → post a t → Obeys R (f a) t post') : Obeys R (x >>= f) s post' := by
  rcases h : effect x s with ⟨_ | a, t⟩
  · obtain ⟨ht, hle⟩ := hx.after h
    exact of_effect (by rw [effect_bind, h]) ht hle fun b hb => by cases hb
  · obtain ⟨ht, hle⟩ := hx.after h
    have hrest := hf a t ht hle (hx.ok a t h)
    have hbind : effect (x >>= f) s = effect (f a) t := by rw [effect_bind, h]
    exact of_effect (r := (effect (f a) t).1) hbind hrest.inv (R.trans hle hrest.le)
      fun b hb => hrest.ok b _ (Prod.ext hb rfl)

theorem imp {post' : α → σ → Prop} (hx : Obeys R x s post) (h : ∀ a t, R.inv t → R.le s t → post a t → post' a t) :
    Obeys R x s post' :=
  ⟨hx.inv, hx.le, fun a t ht => have ⟨hinv, hle⟩ := hx.after ht; h a t hinv hle (hx.ok a t ht)⟩

/-- What follows reading the state. -/
theorem get_bind {f : σ → ExceptT Error (StateM σ) β} {post' : β → σ → Prop} (h : Obeys R (f s) s post') :
    Obeys R (getThe σ >>= f) s post' := by
  have hbind : effect (getThe σ >>= f) s = effect (f s) s := by rw [effect_bind, effect_get]
  exact of_effect (r := (effect (f s) s).1) hbind h.inv h.le
    fun b hb => h.ok b _ (Prod.ext hb rfl)

theorem modify {f : σ → σ} {post : PUnit → σ → Prop} (hinv : R.inv (f s)) (hle : R.le s (f s))
    (hpost : post ⟨⟩ (f s)) : Obeys R (modifyThe σ f) s post :=
  of_effect (effect_modify f) hinv hle fun _ _ => hpost

/-- A step with another error in place of its own. -/
theorem rethrow {g : Error → Error} (hx : Obeys R x s post) :
    Obeys R (tryCatch x fun e => MonadExcept.throw (g e)) s post := by
  rcases h : effect x s with ⟨e | a, t⟩
  · obtain ⟨ht, hle⟩ := hx.after h
    exact of_effect (by rw [effect_tryCatch, h]; rfl) ht hle fun b hb => by cases hb
  · obtain ⟨ht, hle⟩ := hx.after h
    refine of_effect (by rw [effect_tryCatch, h]) ht hle fun b hb => ?_
    cases hb
    exact hx.ok a t h

/-- What each round of a loop leaves as it is holds at the end. -/
theorem foldlM {f : β → α → ExceptT Error (StateM σ) β} {post : β → σ → Prop} {xs : List α} {b : β}
    (hs : R.inv s) (hb : post b s)
    (hf : ∀ b a t, a ∈ xs → R.inv t → R.le s t → post b t → Obeys R (f b a) t post) :
    Obeys R (xs.foldlM f b) s post := by
  induction xs generalizing s b with
  | nil => exact pure hs hb
  | cons a rest ih =>
    refine (hf b a s (List.mem_cons_self ..) hs (R.refl s) hb).bind fun b' t ht hle hb' => ?_
    exact ih ht hb' fun b a u ha hu hle' => hf b a u (List.mem_cons_of_mem _ ha) hu (R.trans hle hle')

/-- What the steps of a sequence end with, at the end of the sequence. -/
theorem mapM {f : α → ExceptT Error (StateM σ) β} {good : α → β → σ → Prop} {xs : List α} (hs : R.inv s)
    (hf : ∀ a t, a ∈ xs → R.inv t → R.le s t → Obeys R (f a) t (good a))
    (hstable : ∀ a b t u, R.inv t → R.inv u → R.le t u → good a b t → good a b u) :
    Obeys R (xs.mapM f) s fun ys t => List.Forall₂ (fun a b => good a b t) xs ys := by
  induction xs generalizing s with
  | nil => exact pure hs .nil
  | cons a rest ih =>
    rw [List.mapM_cons]
    refine (hf a s (List.mem_cons_self ..) hs (R.refl s)).bind fun b t ht hle hb => ?_
    refine (ih ht fun a u ha hu hle' => hf a u (List.mem_cons_of_mem _ ha) hu (R.trans hle hle')).bind
      fun bs u hu hle' hbs => ?_
    exact pure hu (.cons (hstable a b t u ht hu hle' hb) hbs)

/-- A rule that asks for less. -/
theorem relax {R' : Rule σ} (hx : Obeys R x s post) (hinv : ∀ t, R.inv t → R.le s t → R'.inv t)
    (hle : ∀ t, R.le s t → R'.le s t) : Obeys R' x s fun a t => R.inv t ∧ R.le s t ∧ post a t :=
  ⟨hinv _ hx.inv hx.le, hle _ hx.le, fun a t ht => have ⟨htinv, htle⟩ := hx.after ht; ⟨htinv, htle, hx.ok a t ht⟩⟩

/-- Nothing is asked of the result. -/
abbrev Safe (R : Rule σ) (x : ExceptT Error (StateM σ) α) (s : σ) : Prop := Obeys R x s fun _ _ => True

theorem safe (h : Obeys R x s post) : Safe R x s := h.imp fun _ _ _ _ _ => trivial

end Obeys

namespace Rule

variable {R : Rule σ}

/-- A rule as relations between states. -/
def passage (R : Rule σ) : Passage σ where
  ok s t := R.inv s → R.inv t ∧ R.le s t
  err _ s t := R.inv s → R.inv t ∧ R.le s t
  refl s hs := ⟨hs, R.refl s⟩
  trans h h' hs := have ⟨ht, hle⟩ := h hs; have ⟨hu, hle'⟩ := h' ht; ⟨hu, R.trans hle hle'⟩
  fail _ s hs := ⟨hs, R.refl s⟩
  wrap h _ := h
  trans_err h h' hs := have ⟨ht, hle⟩ := h hs; have ⟨hu, hle'⟩ := h' ht; ⟨hu, R.trans hle hle'⟩

theorem keeps_of_safe {x : ExceptT Error (StateM σ) α} (hx : ∀ s, R.inv s → Obeys.Safe R x s) : R.passage.Keeps x := by
  refine ⟨fun s => ?_⟩
  rcases h : effect x s with ⟨_ | a, t⟩ <;> exact fun hs => (hx s hs).after h

theorem safe_of_keeps {x : ExceptT Error (StateM σ) α} (hx : R.passage.Keeps x) {s : σ} (hs : R.inv s) :
    Obeys.Safe R x s := by
  rcases h : effect x s with ⟨e | a, t⟩
  · obtain ⟨ht, hle⟩ := hx.of_error h hs
    exact .of_effect h ht hle fun a ha => trivial
  · obtain ⟨ht, hle⟩ := hx.of_ok h hs
    exact .of_effect h ht hle fun a ha => trivial

end Rule

end Bitpress
