import Bitpress.Proofs.Outcome
import Bitpress.Proofs.Step
import Mathlib.Data.List.Forall2

/-!
What a step does from a given state on.

A `Course` is an invariant of states, an order in which states move, and the
errors that may happen. A step comes to a result (`Comes`) if from the given state
it ends in one of these errors, or in a later state of the invariant with a result
that is as asked. As the order is part of every rule, what was known of earlier
states can be carried along. One step tracks another (`Tracks`) if it comes to
whatever result the other comes to.
-/

namespace Bitpress

variable {σ α β : Type}

structure Course (σ : Type) where
  inv : σ → Prop
  le : σ → σ → Prop
  err : Error → Prop
  refl : ∀ s, le s s
  trans : ∀ {s t u}, le s t → le t u → le s u

/-- What a step comes to from a state in which it begins. -/
structure Comes (C : Course σ) (x : ExceptT Error (StateM σ) α) (s : σ) (post : α → σ → Prop) : Prop where
  ok : ∀ a t, effect x s = (.ok a, t) → C.inv t ∧ C.le s t ∧ post a t
  error : ∀ e t, effect x s = (.error e, t) → C.err e

namespace Comes

variable {C : Course σ} {s : σ} {x : ExceptT Error (StateM σ) α} {post : α → σ → Prop}

/-- What a step comes to, seen from its effect. -/
theorem of_effect {r : Outcome α} {t : σ} (h : effect x s = (r, t))
    (hok : ∀ a, r = .ok a → C.inv t ∧ C.le s t ∧ post a t) (herr : ∀ e, r = .error e → C.err e) :
    Comes C x s post := by
  refine ⟨fun a u hu => ?_, fun e u hu => ?_⟩
  · cases h.symm.trans hu
    exact hok a rfl
  · cases h.symm.trans hu
    exact herr e rfl

theorem pure {a : α} (hs : C.inv s) (h : post a s) : Comes C (Pure.pure a) s post :=
  of_effect (effect_pure a) (fun b hb => by cases hb; exact ⟨hs, C.refl s, h⟩) fun e he => by cases he

theorem throw {e : Error} (h : C.err e) :
    Comes C (MonadExcept.throw e : ExceptT Error (StateM σ) α) s post :=
  of_effect (effect_throw e) (fun a ha => by cases ha) fun e' he => by cases he; exact h

theorem bind {f : α → ExceptT Error (StateM σ) β} {post' : β → σ → Prop} (hx : Comes C x s post)
    (hf : ∀ a t, C.inv t → C.le s t → post a t → Comes C (f a) t post') : Comes C (x >>= f) s post' := by
  rcases h : effect x s with ⟨_ | a, t⟩
  · refine of_effect (by rw [effect_bind, h]) (fun b hb => by cases hb) fun e he => ?_
    cases he
    exact hx.error _ _ h
  · obtain ⟨ht, hle, hpost⟩ := hx.ok a t h
    have hbind : effect (x >>= f) s = effect (f a) t := by rw [effect_bind, h]
    have hrest := hf a t ht hle hpost
    refine ⟨fun b u hu => ?_, fun e u hu => ?_⟩
    · obtain ⟨hu', hle', hpost'⟩ := hrest.ok b u (hbind.symm.trans hu)
      exact ⟨hu', C.trans hle hle', hpost'⟩
    · exact hrest.error e u (hbind.symm.trans hu)

theorem imp {post' : α → σ → Prop} (hx : Comes C x s post)
    (h : ∀ a t, C.inv t → C.le s t → post a t → post' a t) : Comes C x s post' :=
  ⟨fun a t ht => have ⟨hinv, hle, hpost⟩ := hx.ok a t ht; ⟨hinv, hle, h a t hinv hle hpost⟩, hx.error⟩

theorem map {post' : β → σ → Prop} {f : α → β} (hx : Comes C x s post)
    (h : ∀ a t, C.inv t → C.le s t → post a t → post' (f a) t) : Comes C (f <$> x) s post' := by
  rw [map_eq_pure_bind]
  exact hx.bind fun a t ht hle hpost => pure ht (h a t ht hle hpost)

theorem get (hs : C.inv s) : Comes C (getThe σ) s fun a t => a = s ∧ t = s :=
  of_effect effect_get (fun a ha => by cases ha; exact ⟨hs, C.refl s, rfl, rfl⟩) fun e he => by cases he

/-- What follows reading the state. -/
theorem get_bind {f : σ → ExceptT Error (StateM σ) β} {post' : β → σ → Prop} (h : Comes C (f s) s post') :
    Comes C (getThe σ >>= f) s post' := by
  have hbind : effect (getThe σ >>= f) s = effect (f s) s := by rw [effect_bind, effect_get]
  exact ⟨fun b t ht => h.ok b t (hbind.symm.trans ht), fun e t ht => h.error e t (hbind.symm.trans ht)⟩

theorem modify {f : σ → σ} {post : PUnit → σ → Prop} (hinv : C.inv (f s)) (hle : C.le s (f s))
    (hpost : post ⟨⟩ (f s)) : Comes C (modifyThe σ f) s post :=
  of_effect (effect_modify f) (fun a _ => ⟨hinv, hle, hpost⟩) fun e he => by cases he

/-- A step with another error in place of its own. -/
theorem rethrow {g : Error → Error} (hx : Comes C x s post) (hg : ∀ e, C.err e → C.err (g e)) :
    Comes C (tryCatch x fun e => MonadExcept.throw (g e)) s post := by
  rcases h : effect x s with ⟨e | a, t⟩
  · refine of_effect (by rw [effect_tryCatch, h]) (fun b hb => by cases hb) fun e' he => ?_
    cases he
    exact hg e (hx.error e t h)
  · refine of_effect (by rw [effect_tryCatch, h]) (fun b hb => ?_) fun e he => by cases he
    cases hb
    exact hx.ok a t h

/-- What each round of a loop leaves as it is holds at the end. -/
theorem foldlM {f : β → α → ExceptT Error (StateM σ) β} {post : β → σ → Prop} {xs : List α} {b : β}
    (hs : C.inv s) (hb : post b s)
    (hf : ∀ b a t, a ∈ xs → C.inv t → C.le s t → post b t → Comes C (f b a) t post) :
    Comes C (xs.foldlM f b) s post := by
  induction xs generalizing s b with
  | nil => exact pure hs hb
  | cons a rest ih =>
    refine (hf b a s (List.mem_cons_self ..) hs (C.refl s) hb).bind fun b' t ht hle hb' => ?_
    exact ih ht hb' fun b a u ha hu hle' => hf b a u (List.mem_cons_of_mem _ ha) hu (C.trans hle hle')

/-- What each round of a loop adds holds of all rounds at the end. -/
theorem foldlM_steps {f : β → α → ExceptT Error (StateM σ) β} {post : List α → β → σ → Prop} {xs : List α} {b : β}
    (hs : C.inv s) (hb : post [] b s)
    (hf : ∀ done a b t, a ∈ xs → C.inv t → C.le s t → post done b t → Comes C (f b a) t (post (done ++ [a]))) :
    Comes C (xs.foldlM f b) s (post xs) := by
  have hrest : ∀ (rest done : List α) b t, rest ⊆ xs → C.inv t → C.le s t → post done b t →
      Comes C (rest.foldlM f b) t (post (done ++ rest)) := by
    intro rest
    induction rest with
    | nil =>
      intro done b t _ ht _ hpost
      rw [List.append_nil]
      exact pure ht hpost
    | cons a rest ih =>
      intro done b t hsub ht hle hpost
      obtain ⟨ha, hsub⟩ := List.cons_subset.mp hsub
      refine (hf done a b t ha ht hle hpost).bind fun b' u hu hle' hb' => ?_
      have := ih (done ++ [a]) b' u hsub hu (C.trans hle hle') hb'
      rwa [List.append_assoc, List.singleton_append] at this
  exact hrest xs [] b s (List.Subset.refl xs) hs (C.refl s) hb

/-- The same for the steps of a sequence and their results. -/
theorem mapM_steps {f : α → ExceptT Error (StateM σ) β} {post : List α → List β → σ → Prop} {xs : List α}
    (hs : C.inv s) (hnil : post [] [] s)
    (hf : ∀ done a bs t, a ∈ xs → C.inv t → C.le s t → post done bs t →
      Comes C (f a) t fun b u => post (done ++ [a]) (bs ++ [b]) u) : Comes C (xs.mapM f) s (post xs) := by
  have hrest : ∀ (rest done : List α) bs t, rest ⊆ xs → C.inv t → C.le s t → post done bs t →
      Comes C (rest.mapM f) t fun bs' => post (done ++ rest) (bs ++ bs') := by
    intro rest
    induction rest with
    | nil =>
      intro done bs t _ ht _ hpost
      rw [List.mapM_nil]
      refine pure ht ?_
      rwa [List.append_nil, List.append_nil]
    | cons a rest ih =>
      intro done bs t hsub ht hle hpost
      obtain ⟨ha, hsub⟩ := List.cons_subset.mp hsub
      rw [List.mapM_cons]
      refine (hf done a bs t ha ht hle hpost).bind fun b u hu hle' hb => ?_
      refine (ih (done ++ [a]) (bs ++ [b]) u hsub hu (C.trans hle hle') hb).bind fun bs' v hv _ hbs' => pure hv ?_
      rwa [List.append_assoc, List.singleton_append, List.append_assoc, List.singleton_append] at hbs'
  exact hrest xs [] [] s (List.Subset.refl xs) hs (C.refl s) hnil

/-- What the steps of a sequence end with, at the end of the sequence. -/
theorem mapM {f : α → ExceptT Error (StateM σ) β} {good : α → β → σ → Prop} {xs : List α} (hs : C.inv s)
    (hf : ∀ a t, a ∈ xs → C.inv t → C.le s t → Comes C (f a) t (good a))
    (hstable : ∀ a b t u, C.inv t → C.inv u → C.le t u → good a b t → good a b u) :
    Comes C (xs.mapM f) s fun ys t => List.Forall₂ (fun a b => good a b t) xs ys := by
  induction xs generalizing s with
  | nil => exact pure hs .nil
  | cons a rest ih =>
    rw [List.mapM_cons]
    refine (hf a s (List.mem_cons_self ..) hs (C.refl s)).bind fun b t ht hle hb => ?_
    refine (ih ht fun a u ha hu hle' => hf a u (List.mem_cons_of_mem _ ha) hu (C.trans hle hle')).bind
      fun bs u hu hle' hbs => ?_
    exact pure hu (.cons (hstable a b t u ht hu hle' hb) hbs)

/-- Nothing is asked of the result. -/
abbrev Safe (C : Course σ) (x : ExceptT Error (StateM σ) α) (s : σ) : Prop := Comes C x s fun _ _ => True

theorem safe (h : Comes C x s post) : Safe C x s := h.imp fun _ _ _ _ _ => trivial

theorem safe_pure {a : α} (hs : C.inv s) : Safe C (Pure.pure a) s := pure hs trivial

theorem safe_mapM {f : α → ExceptT Error (StateM σ) β} {xs : List α} (hs : C.inv s)
    (hf : ∀ a t, a ∈ xs → C.inv t → C.le s t → Safe C (f a) t) : Safe C (xs.mapM f) s :=
  (mapM hs hf fun _ _ _ _ _ _ _ _ => trivial).safe

theorem safe_foldlM {f : β → α → ExceptT Error (StateM σ) β} {xs : List α} {b : β} (hs : C.inv s)
    (hf : ∀ b a t, a ∈ xs → C.inv t → C.le s t → Safe C (f b a) t) : Safe C (xs.foldlM f b) s :=
  foldlM hs trivial fun b a t ha ht hle _ => hf b a t ha ht hle

/-- Only the effect of a step matters. -/
theorem congr {y : ExceptT Error (StateM σ) α} (h : effect x s = effect y s) (hy : Comes C y s post) :
    Comes C x s post :=
  ⟨fun a t ht => hy.ok a t (h.symm.trans ht), fun e t ht => hy.error e t (h.symm.trans ht)⟩

end Comes

/-! ### Two steps -/

/-- Where the second step comes to a result, the first one comes to the same. -/
abbrev Tracks (C : Course σ) (x y : ExceptT Error (StateM σ) α) (s : σ) (post : α → σ → Prop) : Prop :=
  Comes C y s fun a t => post a t ∧ effect x s = (.ok a, t)

namespace Tracks

variable {C : Course σ} {s : σ} {x y : ExceptT Error (StateM σ) α} {post : α → σ → Prop}

theorem refl (hx : Comes C x s post) : Tracks C x x s post :=
  ⟨fun a t ht => have ⟨hinv, hle, hpost⟩ := hx.ok a t ht; ⟨hinv, hle, hpost, ht⟩, hx.error⟩

/-- A step that tracks itself. -/
theorem comes (h : Tracks C x x s post) : Comes C x s post := h.imp fun _ _ _ _ h => h.1

theorem throw {e : Error} (h : C.err e) :
    Tracks C x (MonadExcept.throw e : ExceptT Error (StateM σ) α) s post := Comes.throw h

theorem bind {f g : α → ExceptT Error (StateM σ) β} {post' : β → σ → Prop} (hx : Tracks C x y s post)
    (hf : ∀ a t, C.inv t → C.le s t → post a t → Tracks C (f a) (g a) t post') :
    Tracks C (x >>= f) (y >>= g) s post' :=
  Comes.bind hx fun a t ht hle h => (hf a t ht hle h.1).imp fun _ _ _ _ h' =>
    ⟨h'.1, effect_bind_eq_ok.mpr ⟨a, t, h.2, h'.2⟩⟩

/-- What follows reading the state. -/
theorem get_bind {f g : σ → ExceptT Error (StateM σ) β} {post' : β → σ → Prop} (h : Tracks C (f s) (g s) s post') :
    Tracks C (getThe σ >>= f) (getThe σ >>= g) s post' :=
  Comes.get_bind (h.imp fun _ _ _ _ h => ⟨h.1, effect_bind_eq_ok.mpr ⟨s, s, effect_get, h.2⟩⟩)

/-- Nothing is asked of the result. -/
abbrev Safe (C : Course σ) (x y : ExceptT Error (StateM σ) α) (s : σ) : Prop := Tracks C x y s fun _ _ => True

theorem safe (h : Tracks C x y s post) : Safe C x y s := h.imp fun _ _ _ _ h => ⟨trivial, h.2⟩

theorem safe_pure {a : α} (hs : C.inv s) : Safe C (Pure.pure a) (Pure.pure a) s := refl (.safe_pure hs)

/-- Both steps with other errors in place of their own. -/
theorem safe_rethrow {g : Error → Error} (hx : Safe C x y s) (hg : ∀ e, C.err e → C.err (g e)) :
    Safe C (tryCatch x fun e => MonadExcept.throw (g e)) (tryCatch y fun e => MonadExcept.throw (g e)) s :=
  (Comes.rethrow hx hg).imp fun _ _ _ _ h => ⟨trivial, by rw [effect_tryCatch, h.2]⟩

theorem safe_foldlM {f g : β → α → ExceptT Error (StateM σ) β} {xs : List α} {b : β} (hs : C.inv s)
    (hf : ∀ b a t, a ∈ xs → C.inv t → C.le s t → Safe C (f b a) (g b a) t) :
    Safe C (xs.foldlM f b) (xs.foldlM g b) s := by
  induction xs generalizing s b with
  | nil => exact safe_pure hs
  | cons a rest ih =>
    refine (hf b a s (List.mem_cons_self ..) hs (C.refl s)).bind fun b' t ht hle _ => ?_
    exact ih ht fun b a u ha hu hle' => hf b a u (List.mem_cons_of_mem _ ha) hu (C.trans hle hle')

theorem safe_mapM {f g : α → ExceptT Error (StateM σ) β} {xs : List α} (hs : C.inv s)
    (hf : ∀ a t, a ∈ xs → C.inv t → C.le s t → Safe C (f a) (g a) t) : Safe C (xs.mapM f) (xs.mapM g) s := by
  induction xs generalizing s with
  | nil => exact safe_pure hs
  | cons a rest ih =>
    rw [List.mapM_cons, List.mapM_cons]
    refine (hf a s (List.mem_cons_self ..) hs (C.refl s)).bind fun b t ht hle _ => ?_
    refine (ih ht fun a u ha hu hle' => hf a u (List.mem_cons_of_mem _ ha) hu (C.trans hle hle')).bind
      fun bs u hu _ _ => safe_pure hu

end Tracks

end Bitpress
