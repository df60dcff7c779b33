import Bitpress.Proofs.Outcome
import Bitpress.Proofs.Step

/-!
Two runs that go alike.

From states that are alike, two steps both fail, or both succeed with results
that belong together, and the states are alike again (`Likeness.Alike`). The first
run may use up what it was allowed to use; what it does from then on does not
matter, but it never gets back what it has used.
-/

namespace Bitpress

variable {σ α α' β β' γ γ' : Type}

/-- How the states of two runs belong together. -/
structure Likeness (σ : Type) where
  alike : σ → σ → Prop
  /-- The first run has used more than it was allowed. -/
  spent : σ → Prop
  /-- What a failure leaves in the first run. -/
  left : σ → Prop
  left_of_alike : ∀ {s t}, alike s t → left s

/-- How the results of two runs belong together: the second result is the first one changed, and the
first one is good. -/
structure Tie (α β : Type) where
  image : α → β
  good : α → Prop := fun _ => True

namespace Tie

/-- The same results. -/
def same : Tie α α := ⟨id, fun _ => True⟩

/-- Lists of results that belong together one by one. -/
def list (R : Tie α β) : Tie (List α) (List β) := ⟨List.map R.image, fun xs => ∀ a ∈ xs, R.good a⟩

def option (R : Tie α β) : Tie (Option α) (Option β) := ⟨Option.map R.image, fun x => ∀ a, x = some a → R.good a⟩

def pair (R : Tie α β) (S : Tie α' β') : Tie (α × α') (β × β') :=
  ⟨fun x => (R.image x.1, S.image x.2), fun x => R.good x.1 ∧ S.good x.2⟩

end Tie

namespace Likeness

/-- What two steps end with. -/
def Ends (K : Likeness σ) (R : Tie α β) : Outcome α × σ → Outcome β × σ → Prop
  | (.ok a, s), (.ok b, t) => b = R.image a ∧ R.good a ∧ K.alike s t
  | (.error _, s), (.error _, _) => K.left s
  | _, _ => False

/-- Under a condition, two steps go alike from wherever the states are alike, or the first one uses more
than it is allowed. Whatever the condition, nothing that was used is given back. -/
structure Alike (K : Likeness σ) (C : Prop) (x : ExceptT Error (StateM σ) α) (y : ExceptT Error (StateM σ) β)
    (R : Tie α β) : Prop where
  spent : ∀ s, K.spent s → K.spent (effect x s).2
  ends : C → ∀ s t, K.alike s t → ¬ K.spent (effect x s).2 → K.Ends R (effect x s) (effect y t)

variable {K : Likeness σ} {C D : Prop} {R : Tie α β} {S : Tie γ γ'}
  {x : ExceptT Error (StateM σ) α} {y : ExceptT Error (StateM σ) β}

theorem Alike.given (h : K.Alike D x y R) (hC : C → D) : K.Alike C x y R := ⟨h.spent, fun c => h.ends (hC c)⟩

/-- Results that are better than they need to be. -/
theorem Alike.imp {Q : α → Prop} (h : K.Alike C x y R) (hgood : C → ∀ a, R.good a → Q a) :
    K.Alike C x y ⟨R.image, Q⟩ := by
  refine ⟨h.spent, fun c s t hst hspent => ?_⟩
  have hends := h.ends c s t hst hspent
  revert hends
  rcases effect x s with ⟨_ | a, s'⟩ <;> rcases effect y t with ⟨_ | b, t'⟩
  · exact id
  · exact id
  · exact id
  · exact fun ⟨hb, ha, hst⟩ => ⟨hb, hgood c a ha, hst⟩

theorem Alike.pure {a : α} {b : β} (hb : b = R.image a) (hgood : C → R.good a) :
    K.Alike C (Pure.pure a) (Pure.pure b) R :=
  ⟨fun _ h => h, fun c _ _ hst _ => ⟨hb, hgood c, hst⟩⟩

theorem Alike.throw (e e' : Error) :
    K.Alike C (MonadExcept.throw e : ExceptT Error (StateM σ) α)
      (MonadExcept.throw e' : ExceptT Error (StateM σ) β) R :=
  ⟨fun _ h => h, fun _ _ _ hst _ => K.left_of_alike hst⟩

/-- Steps that give an outcome and change nothing go alike if the outcomes mirror each other. -/
theorem Alike.of_outcome {r : Outcome α} {r' : Outcome β} (hx : ∀ s, effect x s = (r, s)) (hy : ∀ s, effect y s = (r', s))
    (h : Outcome.Mirrors R.image r r') (hgood : C → ∀ a, r = .ok a → R.good a) : K.Alike C x y R := by
  refine ⟨fun s hs => by rwa [hx], fun c s t hst _ => ?_⟩
  rw [hx, hy]
  cases r with
  | error e =>
    cases r' with
    | error e' => exact K.left_of_alike hst
    | ok b => cases h
  | ok a =>
    cases r' with
    | error e' => cases h
    | ok b =>
      cases h
      exact ⟨rfl, hgood c a rfl, hst⟩

theorem Alike.bind {f : α → ExceptT Error (StateM σ) γ} {g : β → ExceptT Error (StateM σ) γ'}
    (hx : K.Alike C x y R) (hf : ∀ a, K.Alike (C ∧ R.good a) (f a) (g (R.image a)) S) :
    K.Alike C (x >>= f) (y >>= g) S := by
  refine ⟨fun s hs => ?_, fun c s t hst hspent => ?_⟩
  · have hfirst := hx.spent s hs
    rw [effect_bind]
    rcases hxs : effect x s with ⟨_ | a, s'⟩
    · rwa [hxs] at hfirst
    · rw [hxs] at hfirst
      exact (hf a).spent s' hfirst
  · have hends := hx.ends c s t hst
    rw [effect_bind] at hspent ⊢
    rw [effect_bind]
    revert hends hspent
    rcases effect x s with ⟨_ | a, s'⟩
    · intro hspent hends
      have hends := hends hspent
      revert hends
      rcases effect y t with ⟨_ | b, t'⟩
      · exact id
      · exact False.elim
    · intro hspent hends
      have hends := hends fun hs => hspent ((hf a).spent s' hs)
      revert hends
      rcases effect y t with ⟨_ | b, t'⟩
      · exact False.elim
      · rintro ⟨rfl, hgood, hst⟩
        exact (hf a).ends ⟨c, hgood⟩ s' t' hst hspent

/-- What would follow a failure does not matter. -/
theorem Alike.throw_bind (e e' : Error) (f : α → ExceptT Error (StateM σ) γ)
    (g : β → ExceptT Error (StateM σ) γ') :
    K.Alike C ((MonadExcept.throw e : ExceptT Error (StateM σ) α) >>= f)
      ((MonadExcept.throw e' : ExceptT Error (StateM σ) β) >>= g) S :=
  ⟨fun _ h => h, fun _ _ _ hst _ => K.left_of_alike hst⟩

/-- Steps with other errors in place of their own. -/
theorem Alike.rethrow (g g' : Error → Error) (hx : K.Alike C x y R) :
    K.Alike C (tryCatch x fun e => MonadExcept.throw (g e)) (tryCatch y fun e => MonadExcept.throw (g' e)) R := by
  refine ⟨fun s hs => ?_, fun c s t hst hspent => ?_⟩
  · have hfirst := hx.spent s hs
    rw [effect_tryCatch]
    rcases hxs : effect x s with ⟨_ | a, s'⟩ <;> rwa [hxs] at hfirst
  · have hends := hx.ends c s t hst
    rw [effect_tryCatch] at hspent ⊢
    rw [effect_tryCatch]
    revert hends hspent
    rcases effect x s with ⟨_ | a, s'⟩ <;> intro hspent hends <;> have hends := hends hspent <;> revert hends <;>
      rcases effect y t with ⟨_ | b, t'⟩ <;> exact id

theorem Alike.map {f : α → γ} {g : β → γ'} (hx : K.Alike C x y R) (hg : ∀ a, g (R.image a) = S.image (f a))
    (hgood : C → ∀ a, R.good a → S.good (f a)) : K.Alike C (f <$> x) (g <$> y) S := by
  rw [map_eq_pure_bind, map_eq_pure_bind]
  exact .bind hx fun a => .pure (hg a) fun ⟨c, ha⟩ => hgood c a ha

theorem Alike.foldlM {f : α → γ → ExceptT Error (StateM σ) α} {g : β → γ' → ExceptT Error (StateM σ) β}
    {k : γ → γ'} {xs : List γ} {a : α} (hf : ∀ c ∈ xs, ∀ a, K.Alike (C ∧ R.good a) (f a c) (g (R.image a) (k c)) R)
    (ha : C → R.good a) : K.Alike C (xs.foldlM f a) ((xs.map k).foldlM g (R.image a)) R := by
  suffices h : ∀ a, K.Alike (C ∧ R.good a) (xs.foldlM f a) ((xs.map k).foldlM g (R.image a)) R from
    (h a).given fun c => ⟨c, ha c⟩
  clear ha
  induction xs with
  | nil => exact fun a => .pure rfl fun h => h.2
  | cons c rest ih =>
    obtain ⟨hfirst, hrest⟩ := List.forall_mem_cons.mp hf
    intro a
    exact .bind (hfirst a) fun a' => (ih hrest a').given fun h => ⟨h.1.1, h.2⟩

theorem Alike.mapM {f : γ → ExceptT Error (StateM σ) α} {g : γ' → ExceptT Error (StateM σ) β} {k : γ → γ'}
    {xs : List γ} (hf : ∀ c ∈ xs, K.Alike C (f c) (g (k c)) R) :
    K.Alike C (xs.mapM f) ((xs.map k).mapM g) R.list := by
  induction xs with
  | nil => exact .pure rfl fun _ a ha => (by cases ha)
  | cons c rest ih =>
    obtain ⟨hfirst, hrest⟩ := List.forall_mem_cons.mp hf
    rw [List.map_cons, List.mapM_cons, List.mapM_cons]
    refine .bind hfirst fun a => .bind ((ih hrest).given And.left) fun as => .pure rfl fun h => ?_
    exact List.forall_mem_cons.mpr ⟨h.1.2, h.2⟩

/-- The same list on both sides. -/
theorem Alike.mapM_same {f : γ → ExceptT Error (StateM σ) α} {g : γ → ExceptT Error (StateM σ) β} {xs : List γ}
    (hf : ∀ c ∈ xs, K.Alike C (f c) (g c) R) : K.Alike C (xs.mapM f) (xs.mapM g) R.list := by
  have h := Alike.mapM (k := id) hf
  rwa [List.map_id] at h

theorem Alike.foldlM_same {f : α → γ → ExceptT Error (StateM σ) α} {g : β → γ → ExceptT Error (StateM σ) β}
    {xs : List γ} {a : α} (hf : ∀ c ∈ xs, ∀ a, K.Alike (C ∧ R.good a) (f a c) (g (R.image a) c) R)
    (ha : C → R.good a) : K.Alike C (xs.foldlM f a) (xs.foldlM g (R.image a)) R := by
  have h := Alike.foldlM (k := id) hf ha
  rwa [List.map_id] at h

end Likeness

end Bitpress
