import Bitpress.Proofs.Fault
import Bitpress.Proofs.Inheritance.Memo

/-!
What resolving targets does to the source of the declarations: nothing but asking
it and telling it warnings. A passage that these keep is kept by the resolver.
-/

namespace Bitpress.Inheritance

variable {σ α β : Type} {P : Passage σ}

/-- The states of the source before and after a step are as the passage says, from wherever it starts. -/
structure Keeps (P : Passage σ) (x : Step (StateM σ) α) : Prop where
  between : ∀ v s, P.Between s (x.at v s).1.1 (x.at v s).2

/-- The source's own steps keep a passage. -/
structure SourceKeeps (P : Passage σ) (source : TargetSource (StateM σ)) : Prop where
  declaration : ∀ file name, P.Keeps (source.declaration file name)
  locate : ∀ file reference, P.Keeps (source.locate file reference)
  warn : ∀ s ws, P.ok s (StateT.run (source.warn ws) s).2

theorem Keeps.pure (a : α) : Keeps P (Pure.pure a : Step (StateM σ) α) := ⟨fun _ s => P.refl s⟩

theorem Keeps.throw {e : Error} (h : e.Blameless) : Keeps P (MonadExcept.throw e : Step (StateM σ) α) :=
  ⟨fun _ => P.fail h⟩

theorem Keeps.ofOutcome {r : Outcome α} (h : Outcome.Fails Error.Plain r) : Keeps P (ofOutcome r : Step (StateM σ) α) := by
  refine ⟨fun v s => ?_⟩
  cases r with
  | error e => exact P.fail (h.blameless e rfl) s
  | ok a => exact P.refl s

theorem Keeps.bind {x : Step (StateM σ) α} {f : α → Step (StateM σ) β} (hx : Keeps P x)
    (hf : ∀ a, Keeps P (f a)) : Keeps P (x >>= f) := by
  refine ⟨fun v s => ?_⟩
  rw [Step.at_bind]
  have h := hx.between v s
  rcases hx' : x.at v s with ⟨⟨r, v'⟩, t⟩
  rw [hx'] at h
  cases r with
  | error e => exact h
  | ok a =>
    have h' := (hf a).between v' t
    show P.Between s ((f a).at v' t).1.1 ((f a).at v' t).2
    rcases hf' : (f a).at v' t with ⟨⟨r', v''⟩, u⟩
    rw [hf'] at h'
    cases r' with
    | error e => exact P.trans_err h h'
    | ok b => exact P.trans h h'

theorem Keeps.ask {x : ExceptT Error (StateM σ) α} (hx : P.Keeps x) : Keeps P (ask x) :=
  ⟨fun _ s => hx.between s⟩

theorem enter_fails (trail : List TargetKey) (key : TargetKey) : Outcome.Fails Error.Blameless (enter trail key) := by
  unfold enter
  split
  · exact .error rfl
  · exact .ok _

theorem Keeps.visiting {x : Step (StateM σ) α} (key : TargetKey) (hx : Keeps P x) :
    Keeps P (visiting key x) := by
  refine ⟨fun v s => ?_⟩
  rw [Step.at_visiting]
  cases hentered : enter v.trail key with
  | error e => exact P.fail (enter_fails v.trail key e hentered) s
  | ok trail => exact hx.between { v with trail } s

theorem Keeps.foldlM {f : β → α → Step (StateM σ) β} (hf : ∀ b a, Keeps P (f b a)) (xs : List α) (b : β) :
    Keeps P (xs.foldlM f b) := by
  induction xs generalizing b with
  | nil => exact .pure b
  | cons a rest ih => exact .bind (hf b a) fun b => ih b

variable {source : TargetSource (StateM σ)}

theorem keyOf_keeps (hs : SourceKeeps P source) (file : Location) (reference : String) :
    Keeps P (keyOf source file reference) := by
  unfold keyOf
  rcases splitReference reference with ⟨other, name⟩
  cases other with
  | none => exact .pure _
  | some other => exact .bind (.ask (hs.locate file other)) fun _ => .pure _

theorem lookUp_keeps {load : TargetKey → Step (StateM σ) Resolved} (hload : ∀ key, Keeps P (load key))
    (key : TargetKey) : Keeps P (lookUp load key) := by
  refine .bind ⟨fun _ s => P.refl s⟩ fun v => ?_
  split
  · exact .pure _
  · exact .bind (.visiting key (hload key)) fun _ => .bind ⟨fun _ s => P.refl s⟩ fun _ => .pure _

theorem foldOver_keeps (hs : SourceKeeps P source) {load : String → TargetKey → Step (StateM σ) Resolved}
    (hload : ∀ reference key, Keeps P (load reference key)) (file : Location) (d : TargetDecl) :
    Keeps P (foldOver source load file d) := by
  refine .bind (.foldlM (fun tree reference => ?_) d.bases _) fun tree => ?_
  · exact .bind (.bind (keyOf_keeps hs file reference) fun key => lookUp_keeps (hload reference) key)
      fun b => .ofOutcome (mergeBase_fails tree b)
  · exact .bind ⟨fun _ s => hs.warn s _⟩ fun _ => .ofOutcome (mergeOwn_fails d tree)

theorem fold_keeps (hs : SourceKeeps P source) (room : Nat) (file : Location) (d : TargetDecl) :
    Keeps P (fold source room file d) := by
  induction room generalizing file d with
  | zero => exact foldOver_keeps hs (fun _ _ => .throw rfl) file d
  | succ room ih =>
    refine foldOver_keeps hs (fun reference key => ?_) file d
    refine .bind (.ask (hs.declaration key.file key.name)) fun found => ?_
    cases found with
    | none => exact .throw rfl
    | some base => exact .bind (ih key.file base) fun _ => .pure _

theorem specOf_keeps (hs : SourceKeeps P source) (room : Nat) (file : Location) (d : TargetDecl) :
    Keeps P (specOf source room file d) := by
  have hmerged : Keeps P (merged source room file d) := .bind (fold_keeps hs room file d) fun t =>
    .ofOutcome (OverrideDecl.applyAll_fails d.overrides t)
  unfold specOf
  rw [map_eq_pure_bind]
  split
  · exact .bind (.visiting _ hmerged) fun _ => .pure _
  · exact .bind hmerged fun _ => .pure _

end Bitpress.Inheritance
