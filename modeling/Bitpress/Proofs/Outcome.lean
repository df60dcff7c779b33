import Bitpress.Error
import Mathlib.Data.List.Forall2

/-! How outcomes pass through a sequence of steps: a sequence succeeds when both
steps do, and fails with the error of the first that does. -/
namespace Bitpress

namespace Error

/-- The registries whose loads an error has passed through, from the outside in. -/
def loads : Error → List Location
  | registryLoad p source => p :: source.loads
  | within _ source => source.loads
  | _ => []

/-- No load has passed the error on. -/
abbrev Blameless (e : Error) : Prop := e.loads = []

/-- What is left when all that wraps an error is taken off wraps nothing. -/
theorem cause?_root (e : Error) : e.root.cause? = none := by
  induction e with
  | registryLoad _ _ ih => exact ih
  | within _ _ ih => exact ih
  | _ => rfl

/-- The last of the errors that are wrapped is what is left. -/
theorem getLast?_causes (e : Error) : (e :: e.causes).getLast? = some e.root := by
  induction e with
  | registryLoad _ source ih => exact (List.getLast?_cons_cons ..).trans ih
  | within _ source ih => exact (List.getLast?_cons_cons ..).trans ih
  | _ => rfl

theorem reference?_eq_some {e : Error} {fault : ReferenceFault} : e.reference? = some fault ↔ e.root = .reference fault := by
  induction e with
  | registryLoad _ _ ih => exact ih
  | within _ _ ih => exact ih
  | reference other => exact ⟨fun h => congrArg reference (Option.some.inj h), fun h => congrArg some (reference.inj h)⟩
  | _ => exact ⟨nofun, nofun⟩

end Error

namespace Outcome

variable {α β γ : Type} {e : Error}

theorem bind_eq_ok {ε : Type} {x : Except ε α} {f : α → Except ε β} {b : β} :
    x >>= f = .ok b ↔ ∃ a, x = .ok a ∧ f a = .ok b := by
  cases x <;> simp [bind, Except.bind]

theorem map_eq_ok {ε : Type} {x : Except ε α} {f : α → β} {b : β} : x.map f = .ok b ↔ ∃ a, x = .ok a ∧ f a = b := by
  cases x <;> simp [Except.map]

theorem mapError_eq_ok {ε ε' : Type} {x : Except ε α} {f : ε → ε'} {a : α} : x.mapError f = .ok a ↔ x = .ok a := by
  cases x <;> simp [Except.mapError]

/-- What is said of a result is decided by cases on whether there is one. -/
instance decidableGood {ε : Type} {good : α → Prop} [DecidablePred good] :
    (x : Except ε α) → Decidable (∀ a, x = .ok a → good a)
  | .error _ => isTrue fun _ h => nomatch h
  | .ok a => decidable_of_iff (good a) ⟨fun h _ ha => Except.ok.inj ha ▸ h, fun h => h a rfl⟩

theorem toOption_eq_some {ε : Type} {x : Except ε α} {a : α} : x.toOption = some a ↔ x = .ok a := by
  cases x <;> simp [Except.toOption]

theorem bind_eq_error {x : Outcome α} {f : α → Outcome β} :
    x >>= f = .error e ↔ x = .error e ∨ ∃ a, x = .ok a ∧ f a = .error e := by
  cases x <;> simp [bind, Except.bind]

/-- A fold over a list succeeds alike with steps that succeed wherever the given ones do. -/
theorem foldlM_eq_ok_of {f g : β → α → Outcome β} {xs : List α} {b c : β}
    (h : ∀ x ∈ xs, ∀ b c, f b x = .ok c → g b x = .ok c) (hf : xs.foldlM f b = .ok c) :
    xs.foldlM g b = .ok c := by
  induction xs generalizing b with
  | nil => exact hf
  | cons x rest ih =>
    obtain ⟨b', hx, hrest⟩ := bind_eq_ok.mp hf
    have hg : g b x = .ok b' := h x (List.mem_cons_self ..) b b' hx
    show (g b x >>= fun b => rest.foldlM g b) = .ok c
    rw [hg]
    exact ih (fun y hy => h y (List.mem_cons_of_mem x hy)) hrest

/-- Wherever a fold succeeds, each of its steps has succeeded. -/
theorem exists_ok_of_foldlM {f : β → α → Outcome β} {xs : List α} {b c : β} (h : xs.foldlM f b = .ok c) :
    ∀ x ∈ xs, ∃ b c, f b x = .ok c := by
  induction xs generalizing b with
  | nil => intro x hx; cases hx
  | cons y rest ih =>
    obtain ⟨b', hy, hrest⟩ := bind_eq_ok.mp h
    intro x hx
    rcases List.mem_cons.mp hx with rfl | hx
    · exact ⟨b, b', hy⟩
    · exact ih hrest x hx

/-- What each step of a fold keeps, the fold keeps. -/
theorem foldlM_keeps {ε : Type} {q : β → Prop} {f : β → α → Except ε β} {xs : List α} {b c : β}
    (hstep : ∀ x ∈ xs, ∀ b c, q b → f b x = .ok c → q c) (hb : q b) (h : xs.foldlM f b = .ok c) : q c := by
  induction xs generalizing b with
  | nil =>
    cases h
    exact hb
  | cons x rest ih =>
    obtain ⟨next, hnext, h⟩ := bind_eq_ok.mp h
    obtain ⟨hfirst, hrest⟩ := List.forall_mem_cons.mp hstep
    exact ih hrest (hfirst b next hb hnext) h

/-- A fold fails with the error of one of its steps. -/
theorem exists_error_of_foldlM {f : β → α → Outcome β} {xs : List α} {b : β}
    (h : xs.foldlM f b = .error e) : ∃ x ∈ xs, ∃ b, f b x = .error e := by
  induction xs generalizing b with
  | nil => cases h
  | cons y rest ih =>
    rcases bind_eq_error.mp h with hy | ⟨b', _, hrest⟩
    · exact ⟨y, List.mem_cons_self .., b, hy⟩
    · obtain ⟨x, hx, b, hb⟩ := ih hrest
      exact ⟨x, List.mem_cons_of_mem y hx, b, hb⟩

/-- Each result of a sequence of steps is that of one of them. -/
theorem exists_ok_of_mapM {ε : Type} {f : α → Except ε β} {xs : List α} {ys : List β} (h : xs.mapM f = .ok ys) :
    ∀ y ∈ ys, ∃ x ∈ xs, f x = .ok y := by
  induction xs generalizing ys with
  | nil =>
    cases h
    intro y hy
    cases hy
  | cons x rest ih =>
    rw [List.mapM_cons] at h
    obtain ⟨first, hfirst, h⟩ := bind_eq_ok.mp h
    obtain ⟨more, hmore, h⟩ := bind_eq_ok.mp h
    cases h
    intro y hy
    rcases List.mem_cons.mp hy with rfl | hy
    · exact ⟨x, List.mem_cons_self .., hfirst⟩
    · obtain ⟨z, hz, hmade⟩ := ih hmore y hy
      exact ⟨z, List.mem_cons_of_mem x hz, hmade⟩

/-- A sequence of steps gives the result of each, in order. -/
theorem mapM_eq_ok {ε : Type} {f : α → Except ε β} {xs : List α} {ys : List β} :
    xs.mapM f = .ok ys ↔ List.Forall₂ (fun x y => f x = .ok y) xs ys := by
  induction xs generalizing ys with
  | nil => exact ⟨fun h => Except.ok.inj h ▸ .nil, fun h => by cases h; rfl⟩
  | cons x rest ih =>
    rw [List.mapM_cons]
    refine ⟨fun h => ?_, fun h => ?_⟩
    · obtain ⟨first, hfirst, h⟩ := bind_eq_ok.mp h
      obtain ⟨more, hmore, h⟩ := bind_eq_ok.mp h
      cases h
      exact .cons hfirst (ih.mp hmore)
    · cases h with
      | cons hfirst hrest => exact bind_eq_ok.mpr ⟨_, hfirst, bind_eq_ok.mpr ⟨_, ih.mpr hrest, rfl⟩⟩

/-- Steps that undo a function give back what it was applied to. -/
theorem mapM_map {ε : Type} {f : β → Except ε α} {g : α → β} {xs : List α} (h : ∀ x ∈ xs, f (g x) = .ok x) :
    (xs.map g).mapM f = .ok xs := by
  induction xs with
  | nil => rfl
  | cons x rest ih =>
    obtain ⟨hfirst, hrest⟩ := List.forall_mem_cons.mp h
    rw [List.map_cons, List.mapM_cons, hfirst, ih hrest]
    rfl

/-- A fold that does not fail with `e` is the same with steps that are the same wherever the given
ones do not fail with `e`. -/
theorem foldlM_eq_of_ne {f g : β → α → Outcome β} {xs : List α} {b : β}
    (h : ∀ x ∈ xs, ∀ b, f b x ≠ .error e → g b x = f b x) (hf : xs.foldlM f b ≠ .error e) :
    xs.foldlM g b = xs.foldlM f b := by
  induction xs generalizing b with
  | nil => rfl
  | cons x rest ih =>
    have hx : f b x ≠ .error e := fun hb => hf (by
      show (f b x >>= fun b => rest.foldlM f b) = .error e
      rw [hb]
      rfl)
    have hg : g b x = f b x := h x (List.mem_cons_self ..) b hx
    show (g b x >>= fun b => rest.foldlM g b) = f b x >>= fun b => rest.foldlM f b
    rw [hg]
    cases hb : f b x with
    | error e' => rfl
    | ok b' =>
      refine ih (fun y hy => h y (List.mem_cons_of_mem x hy)) fun hrest => hf ?_
      show (f b x >>= fun b => rest.foldlM f b) = .error e
      rw [hb]
      exact hrest

/-- Every error of an outcome is one that `p` allows. -/
def Fails (p : Error → Prop) (x : Outcome α) : Prop := ∀ e, x = .error e → p e

section Fails
variable {p : Error → Prop}

theorem Fails.ok (a : α) : Fails p (.ok a : Outcome α) := fun _ h => (by cases h)

theorem Fails.error (h : p e) : Fails p (.error e : Outcome α) := by
  intro _ he
  cases he
  exact h

theorem Fails.bind {x : Outcome α} {f : α → Outcome β} (hx : Fails p x) (hf : ∀ a, Fails p (f a)) :
    Fails p (x >>= f) := by
  intro e he
  rcases bind_eq_error.mp he with h | ⟨a, _, h⟩
  · exact hx e h
  · exact hf a e h

theorem Fails.option {f : α → Outcome β} (hf : ∀ a, Fails p (f a)) (x : Option α) : Fails p (x.mapM f) := by
  cases x with
  | none => exact .ok none
  | some a => exact .bind (hf a) fun b => .ok (some b)

theorem Fails.foldlM {f : β → α → Outcome β} {xs : List α} {b : β} (hf : ∀ b x, Fails p (f b x)) :
    Fails p (xs.foldlM f b) := by
  intro e he
  obtain ⟨x, _, b, hb⟩ := exists_error_of_foldlM he
  exact hf b x e hb

end Fails

/-- Two outcomes both fail, or the second gives what the first gives, changed. -/
def Mirrors (h : α → β) (x : Outcome α) (y : Outcome β) : Prop := y.toOption = x.toOption.map h

section Mirrors
variable {δ : Type} {h : α → β} {x : Outcome α} {y : Outcome β}

theorem Mirrors.ok (a : α) : Mirrors h (.ok a) (.ok (h a)) := rfl

theorem Mirrors.error (e e' : Error) : Mirrors h (.error e) (.error e') := rfl

theorem Mirrors.same (x : Outcome α) : Mirrors id x x := by
  cases x <;> rfl

theorem Mirrors.bind {h' : γ → δ} {f : α → Outcome γ} {g : β → Outcome δ} (hx : Mirrors h x y)
    (hf : ∀ a, x = .ok a → Mirrors h' (f a) (g (h a))) : Mirrors h' (x >>= f) (y >>= g) := by
  cases x with
  | error e =>
    cases y with
    | error e' => rfl
    | ok b => cases hx
  | ok a =>
    cases y with
    | error e' => cases hx
    | ok b =>
      cases hx
      exact hf a rfl

theorem Mirrors.map (h' : β → γ) (hx : Mirrors h x y) : Mirrors (h' ∘ h) x (h' <$> y) := by
  cases x with
  | error e =>
    cases y with
    | error e' => rfl
    | ok b => cases hx
  | ok a =>
    cases y with
    | error e' => cases hx
    | ok b =>
      cases hx
      rfl

end Mirrors

end Outcome

end Bitpress
