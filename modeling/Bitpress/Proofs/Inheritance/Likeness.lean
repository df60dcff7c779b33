import Bitpress.Proofs.Inheritance.Memo
import Bitpress.Proofs.Likeness
import Bitpress.Proofs.Wording

/-!
Two sources that answer alike.

The same targets are resolved against both, from the same visit. The resolver
then does the same in both runs: what it reads of a source are declarations,
which carry no identities.
-/

namespace Bitpress.Inheritance

open Likeness

variable {σ : Type} {α β : Type} {K : Likeness σ} {C D : Prop} {p : String → Prop}

/-- Every text of a resolved base satisfies `p`. -/
structure Resolved.AllTexts (p : String → Prop) (base : Resolved) : Prop where
  tree : base.tree.AllTexts p
  overrides : OverrideDecl.AllTexts p base.overrides

def Visit.AllTexts (p : String → Prop) (v : Visit) : Prop := ∀ e ∈ v.memo, e.2.AllTexts p

theorem Visit.AllTexts.find? {v : Visit} (h : v.AllTexts p) {key : TargetKey} {base : Resolved}
    (hfind : v.memo.find? key = some base) : base.AllTexts p := by
  obtain ⟨e, he, rfl⟩ := Option.map_eq_some_iff.mp hfind
  exact h e (List.mem_of_find?_eq_some he)

/-- A step from a visit, which gives the visit it ends with. -/
def Step.on (x : Step (StateM σ) α) (v : Visit) : ExceptT Error (StateM σ) (α × Visit) :=
  ExceptT.mk fun s => ((x.at v s).1.1.map fun a => (a, (x.at v s).1.2), (x.at v s).2)

section On
variable {v : Visit}

theorem Step.on_pure (a : α) : (pure a : Step (StateM σ) α).on v = pure (a, v) := rfl

theorem Step.on_bind (x : Step (StateM σ) α) (f : α → Step (StateM σ) β) :
    (x >>= f).on v = x.on v >>= fun out => (f out.1).on out.2 := by
  funext s
  show (((x >>= f).at v s).1.1.map fun b => (b, ((x >>= f).at v s).1.2), ((x >>= f).at v s).2) =
    effect (x.on v >>= fun out => (f out.1).on out.2) s
  have hfirst : effect (x.on v) s = ((x.at v s).1.1.map fun a => (a, (x.at v s).1.2), (x.at v s).2) := rfl
  rw [effect_bind, hfirst, Step.at_bind]
  rcases x.at v s with ⟨⟨_ | a, v'⟩, s'⟩ <;> rfl

theorem Step.on_ask (x : ExceptT Error (StateM σ) α) : (ask x).on v = x >>= fun a => pure (a, v) := by
  funext s
  show ((effect x s).1.map fun a => (a, v), (effect x s).2) = effect (x >>= fun a => pure (a, v)) s
  rw [effect_bind]
  rcases effect x s with ⟨_ | a, s'⟩ <;> rfl

theorem Step.on_note (source : TargetSource (StateM σ)) (ws : List Warning) :
    (note source ws).on v = ExceptT.lift (source.warn ws) >>= fun _ => pure ((), v) := rfl

theorem Step.on_get : (getThe Visit : Step (StateM σ) Visit).on v = pure (v, v) := rfl

theorem Step.on_modify (f : Visit → Visit) :
    (modifyThe Visit f : Step (StateM σ) PUnit).on v = pure (⟨⟩, f v) := rfl

theorem Step.on_visiting (key : TargetKey) (x : Step (StateM σ) α) :
    (visiting key x).on v = match enter v.trail key with
      | .error e => throw e
      | .ok trail => x.on { v with trail } >>= fun out =>
        pure (out.1, { out.2 with trail := out.2.trail.dropLast }) := by
  funext s
  show (((visiting key x).at v s).1.1.map fun a => (a, ((visiting key x).at v s).1.2), ((visiting key x).at v s).2) =
    effect (match enter v.trail key with
      | .error e => throw e
      | .ok trail => x.on { v with trail } >>= fun out =>
        pure (out.1, { out.2 with trail := out.2.trail.dropLast })) s
  rw [Step.at_visiting]
  cases enter v.trail key with
  | error e => rfl
  | ok trail =>
    have hon : effect (x.on { v with trail }) s = ((x.at { v with trail } s).1.1.map fun a =>
      (a, (x.at { v with trail } s).1.2), (x.at { v with trail } s).2) := rfl
    dsimp only
    rw [effect_bind, hon]
    rcases x.at { v with trail } s with ⟨⟨_ | a, v'⟩, s'⟩ <;> rfl

end On

/-- The same results and visits. -/
def visits (p : String → Prop) (Q : α → Prop) : Tie (α × Visit) (α × Visit) :=
  ⟨id, fun out => Q out.1 ∧ out.2.AllTexts p⟩

/-- Whatever visit two steps start from, they go alike and end with the same visit. -/
structure StepsAlike (K : Likeness σ) (C : Prop) (p : String → Prop) (x y : Step (StateM σ) α) (Q : α → Prop) :
    Prop where
  on : ∀ v, K.Alike (C ∧ v.AllTexts p) (x.on v) (y.on v) (visits p Q)

/-- Two sources of the same declarations, whose texts satisfy `p`. -/
structure SourcesAlike (K : Likeness σ) (C : Prop) (p : String → Prop) (source source' : TargetSource (StateM σ)) :
    Prop where
  declaration : ∀ file name, K.Alike C (source.declaration file name) (source'.declaration file name)
    ⟨id, fun found => ∀ d, found = some d → d.AllTexts p⟩
  locate : ∀ file reference, K.Alike C (source.locate file reference) (source'.locate file reference) .same
  warn : ∀ ws, K.Alike C (ExceptT.lift (source.warn ws)) (ExceptT.lift (source'.warn ws)) .same

theorem SourcesAlike.given {source source' : TargetSource (StateM σ)} (h : SourcesAlike K D p source source')
    (hC : C → D) : SourcesAlike K C p source source' :=
  ⟨fun file name => (h.declaration file name).given hC, fun file reference => (h.locate file reference).given hC,
    fun ws => (h.warn ws).given hC⟩

section Steps
variable {x y : Step (StateM σ) α} {Q : α → Prop}

theorem StepsAlike.given (h : StepsAlike K D p x y Q) (hC : C → D) : StepsAlike K C p x y Q :=
  ⟨fun v => (h.on v).given fun c => ⟨hC c.1, c.2⟩⟩

theorem StepsAlike.pure {a : α} (h : C → Q a) : StepsAlike K C p (Pure.pure a) (Pure.pure a) Q := by
  refine ⟨fun v => ?_⟩
  rw [Step.on_pure]
  exact .pure rfl fun c => ⟨h c.1, c.2⟩

theorem StepsAlike.throw (e : Error) :
    StepsAlike K C p (MonadExcept.throw e : Step (StateM σ) α) (MonadExcept.throw e) Q :=
  ⟨fun _ => .throw e e⟩

theorem StepsAlike.ofOutcome {r : Outcome α} (h : C → ∀ a, r = .ok a → Q a) :
    StepsAlike K C p (ofOutcome r) (ofOutcome r) Q := by
  cases r with
  | error e => exact .throw e
  | ok a => exact .pure fun c => h c a rfl

theorem StepsAlike.bind {Q' : β → Prop} {f g : α → Step (StateM σ) β} (hx : StepsAlike K C p x y Q)
    (hf : ∀ a, StepsAlike K (C ∧ Q a) p (f a) (g a) Q') : StepsAlike K C p (x >>= f) (y >>= g) Q' := by
  refine ⟨fun v => ?_⟩
  rw [Step.on_bind, Step.on_bind]
  exact .bind (hx.on v) fun out => ((hf out.1).on out.2).given fun h => ⟨⟨h.1.1, h.2.1⟩, h.2.2⟩

theorem StepsAlike.ask {z z' : ExceptT Error (StateM σ) α} (h : K.Alike C z z' ⟨id, Q⟩) :
    StepsAlike K C p (ask z) (ask z') Q := by
  refine ⟨fun v => ?_⟩
  rw [Step.on_ask, Step.on_ask]
  exact .bind (h.given And.left) fun a => .pure rfl fun h => ⟨h.2, h.1.2⟩

/-- The trails of both visits are the same, so a target is on both or on neither. -/
theorem StepsAlike.visiting (key : TargetKey) (h : StepsAlike K C p x y Q) :
    StepsAlike K C p (visiting key x) (visiting key y) Q := by
  refine ⟨fun v => ?_⟩
  rw [Step.on_visiting, Step.on_visiting]
  cases enter v.trail key with
  | error e => exact .throw e e
  | ok trail => exact .bind (h.on { v with trail }) fun out => .pure rfl fun h => h.2

theorem StepsAlike.foldlM {f g : β → α → Step (StateM σ) β} {Q : β → Prop} {xs : List α} {b : β}
    (hf : ∀ b, ∀ a ∈ xs, StepsAlike K (C ∧ Q b) p (f b a) (g b a) Q) (hb : C → Q b) :
    StepsAlike K C p (xs.foldlM f b) (xs.foldlM g b) Q := by
  induction xs generalizing b C with
  | nil => exact .pure hb
  | cons a rest ih =>
    refine .bind ((hf b a List.mem_cons_self).given fun c => ⟨c, hb c⟩) fun b' => ?_
    exact ih (fun b a ha => (hf b a (List.mem_cons_of_mem _ ha)).given fun h => ⟨h.1.1, h.2⟩) fun h => h.2

end Steps

section Sources
variable {source source' : TargetSource (StateM σ)}

theorem note_alike (hs : SourcesAlike K C p source source') (ws : List Warning) :
    StepsAlike K C p (note source ws) (note source' ws) fun _ => True := by
  refine ⟨fun v => ?_⟩
  rw [Step.on_note, Step.on_note]
  exact .bind ((hs.warn ws).given And.left) fun _ => .pure rfl fun h => ⟨trivial, h.1.2⟩

theorem keyOf_alike (hs : SourcesAlike K C p source source') (file : Location) (reference : String) :
    StepsAlike K C p (keyOf source file reference) (keyOf source' file reference) fun _ => True := by
  unfold keyOf
  rcases splitReference reference with ⟨other, name⟩
  cases other with
  | none => exact .pure fun _ => trivial
  | some other => exact .bind (.ask (hs.locate file other)) fun _ => .pure fun _ => trivial

variable {load load' : TargetKey → Step (StateM σ) Resolved}

theorem lookUp_alike (hload : ∀ key, StepsAlike K C p (load key) (load' key) (Resolved.AllTexts p)) (key : TargetKey) :
    StepsAlike K C p (lookUp load key) (lookUp load' key) (Resolved.AllTexts p) := by
  have hvisit : StepsAlike K C p (getThe Visit : Step (StateM σ) Visit) (getThe Visit) (Visit.AllTexts p) := by
    refine ⟨fun v => ?_⟩
    rw [Step.on_get]
    exact .pure rfl fun c => ⟨c.2, c.2⟩
  refine .bind hvisit fun v => ?_
  cases hfind : v.memo.find? key with
  | some base => exact .pure fun c => c.2.find? hfind
  | none =>
    refine .bind ((StepsAlike.visiting key (hload key)).given And.left) fun base => ?_
    have hkept : StepsAlike K ((C ∧ v.AllTexts p) ∧ base.AllTexts p) p
        (modifyThe Visit fun v => { v with memo := (key, base) :: v.memo } : Step (StateM σ) PUnit)
        (modifyThe Visit fun v => { v with memo := (key, base) :: v.memo }) (fun _ => True) := by
      refine ⟨fun v => ?_⟩
      rw [Step.on_modify]
      exact .pure rfl fun c => ⟨trivial, List.forall_mem_cons.mpr ⟨c.1.2, c.2⟩⟩
    exact .bind hkept fun _ => .pure fun c => c.1.2

end Sources

section Merging
variable {source source' : TargetSource (StateM σ)}

theorem foldOver_alike (hs : SourcesAlike K C p source source')
    {load load' : String → TargetKey → Step (StateM σ) Resolved}
    (hload : ∀ reference key, StepsAlike K C p (load reference key) (load' reference key) (Resolved.AllTexts p))
    (file : Location) {d : TargetDecl} (hd : C → d.AllTexts p) :
    StepsAlike K C p (foldOver source load file d) (foldOver source' load' file d) (Tree.AllTexts p) := by
  have hempty : (TargetSpec.toTree {}).AllTexts p := by
    refine Tree.allTexts_map.mpr fun e he => ?_
    simp only [TargetSpec.toTable, Encode.optional, List.mem_append, List.mem_cons, List.not_mem_nil, or_false,
      false_or] at he
    rcases he with rfl | rfl | rfl <;> exact Tree.allTexts_map.mpr .nil
  refine .bind (Q := Tree.AllTexts p) (.foldlM (fun tree reference _ => ?_) fun _ => hempty) fun tree => ?_
  · refine .bind (Q := Resolved.AllTexts p) ?_ fun base => .ofOutcome fun h made hmade =>
      mergeBase_allTexts h.1.2 h.2.tree h.2.overrides hmade
    exact .bind ((keyOf_alike hs file reference).given And.left) fun key =>
      (lookUp_alike (hload reference) key).given fun h => h.1.1
  · refine .bind ((note_alike hs (legacyWarnings d)).given And.left) fun _ => .ofOutcome fun h made hmade => ?_
    exact mergeOwn_allTexts (hd h.1.1) h.1.2 hmade

theorem fold_alike (hs : SourcesAlike K C p source source') (room : Nat) (file : Location) {d : TargetDecl}
    (hd : C → d.AllTexts p) :
    StepsAlike K C p (fold source room file d) (fold source' room file d) (Tree.AllTexts p) := by
  induction room generalizing file d C with
  | zero => exact foldOver_alike hs (fun _ _ => .throw _) file hd
  | succ room ih =>
    refine foldOver_alike hs (fun reference key => ?_) file hd
    refine .bind (.ask (hs.declaration key.file key.name)) fun found => ?_
    cases found with
    | none => exact .throw _
    | some base =>
      have hbase : C ∧ (∀ d, some base = some d → d.AllTexts p) → base.AllTexts p := fun h => h.2 base rfl
      refine .bind (ih (hs.given And.left) key.file hbase) fun tree => .pure fun h => ?_
      exact ⟨h.2, (hbase h.1).overrides⟩

/-- A target merges to the same spec in both runs. -/
theorem specOf_alike (hs : SourcesAlike K C p source source') (room : Nat) (file : Location) {d : TargetDecl}
    (hd : C → d.AllTexts p) :
    StepsAlike K C p (specOf source room file d) (specOf source' room file d) (TargetSpec.AllTexts p) := by
  have hmerged : StepsAlike K C p (merged source room file d) (merged source' room file d) (Tree.AllTexts p) :=
    .bind (fold_alike hs room file hd) fun tree => .ofOutcome fun h made hmade =>
      OverrideDecl.applyAll_allTexts (hd h.1).overrides h.2 hmade
  unfold specOf
  rw [map_eq_pure_bind, map_eq_pure_bind]
  split
  · exact .bind (.visiting _ hmerged) fun _ => .pure fun h => TargetSpec.ofTree_allTexts h.2
  · exact .bind hmerged fun _ => .pure fun h => TargetSpec.ofTree_allTexts h.2

end Merging

end Bitpress.Inheritance
