import Bitpress.Proofs.Merge
import Bitpress.Proofs.Outcome

/-!
What overrides do to a spec.

An override changes one part of a spec, and what it makes of the part depends on
nothing but the part (`OverrideDecl.changes`). So overrides do not see in which
order the parts of a spec stand (`OverrideDecl.applyAll_same`).
-/

namespace Bitpress

open Outcome

/-- A step that changes one part of a spec, by what the part is alone. -/
structure Changes (step : Tree → Outcome Tree) (key : String) (change : Option Tree → Outcome (Option Tree)) :
    Prop where
  eq : ∀ spec : Table Tree,
    step (.map spec) = do return .map (spec.assign key (← change (spec.valueAt? key)))
  keyed : ∀ part made, (∀ u ∈ part, Tree.Keyed u) → change part = .ok (some made) → made.Keyed

namespace OverridePath

/-- What a path leads through first is a part of the spec. -/
theorem segments_withinSpec (p : OverridePath) : ∃ key rest, p.withinSpec.segments = .key key :: rest := by
  unfold withinSpec
  split
  · rename_i key rest h
    split
    · exact ⟨key, rest, h⟩
    · exact ⟨"queries", _, rfl⟩
  · exact ⟨"queries", _, rfl⟩

/-- What an operation at a part of a spec makes of it. -/
def changePart (op : OverrideOp) (value : Tree) (part : Option Tree) : Option Tree :=
  match op with
  | .set => some value
  | .merge => part.merge (Tree.merge .indexWise) (some value)
  | .remove => none

theorem operate_key (op : OverrideOp) (value : Tree) (entries : Table Tree) (key : String) :
    operate op value (.map entries) (.key key) = .map (entries.assign key (changePart op value (entries.valueAt? key))) := by
  cases op with
  | set => rfl
  | remove => rfl
  | merge =>
    simp only [operate]
    cases entries.valueAt? key <;> rfl

/-- A path that ends at a part changes nothing but the part. -/
theorem apply_part {p : OverridePath} {key : String} (h : p.segments = [.key key]) (op : OverrideOp) (value : Tree)
    (spec : Table Tree) :
    p.apply op value (.map spec) = .ok (.map (spec.assign key (changePart op value (spec.valueAt? key)))) := by
  have hsegments : p.segments = [] ++ [.key key] := h
  have hvalid : p.validate op (.map spec) = .ok () := (validate_eq_ok hsegments).mpr ⟨_, rfl, spec, rfl⟩
  rw [apply_eq hsegments, hvalid]
  exact congrArg Except.ok (operate_key op value spec key)

theorem changes_part {p : OverridePath} {key : String} (h : p.segments = [.key key]) (op : OverrideOp)
    {value : Tree} (hvalue : value.Keyed) :
    Changes (p.apply op value) key fun part => .ok (changePart op value part) := by
  refine ⟨apply_part h op value, fun part made hpart hmade => ?_⟩
  cases op with
  | set =>
    cases hmade
    exact hvalue
  | remove => cases hmade
  | merge =>
    cases part with
    | none =>
      cases hmade
      exact hvalue
    | some there =>
      cases hmade
      exact (hpart there rfl).merge .indexWise hvalue

/-- What an operation further down makes of a part; the part has to be there. -/
def changeBelow (p : OverridePath) (op : OverrideOp) (value : Tree) (key : String) (path : List Segment)
    (last : Segment) (part : Option Tree) : Outcome (Option Tree) :=
  match part with
  | none => .error (p.fault ("`" ++ key ++ "` does not exist"))
  | some there => do
    p.checkLast op (← p.walk key there path) last
    return some (there.changeAt path fun node => operate op value node last)

/-- A path that goes on below a part changes nothing but the part. -/
theorem apply_below {p : OverridePath} {key : String} {path : List Segment} {last : Segment}
    (h : p.segments = .key key :: (path ++ [last])) (op : OverrideOp) (value : Tree) (spec : Table Tree) :
    p.apply op value (.map spec) = do
      return .map (spec.assign key (← p.changeBelow op value key path last (spec.valueAt? key))) := by
  have hsegments : p.segments = (.key key :: path) ++ [last] := h
  simp only [apply_eq hsegments, validate_eq hsegments, walk, walked, Tree.step?, Tree.changeAt, Tree.changeStep,
    changeBelow, if_true]
  cases spec.valueAt? key with
  | none => rfl
  | some there =>
    simp only [bind_assoc, pure_bind]
    rfl

theorem changes_below {p : OverridePath} {key : String} {path : List Segment} {last : Segment}
    (h : p.segments = .key key :: (path ++ [last])) (op : OverrideOp) (value : Tree) :
    Changes (p.apply op value) key (p.changeBelow op value key path last) := by
  refine ⟨apply_below h op value, fun part made hpart hmade => ?_⟩
  cases part with
  | none => cases hmade
  | some there =>
    obtain ⟨_, _, h⟩ := bind_eq_ok.mp hmade
    obtain ⟨_, _, h⟩ := bind_eq_ok.mp h
    cases h
    exact (hpart there rfl).changeAt path fun node hnode => operate_keyed op value hnode last

end OverridePath

namespace OverrideDecl

variable {o : OverrideDecl} {overrides : List OverrideDecl} {spec spec' : Table Tree}

theorem changes (h : o.value.Keyed) : ∃ key change, Changes o.apply key change := by
  unfold OverrideDecl.apply
  cases hparse : OverridePath.parse o.path with
  | error e => exact ⟨"", fun _ => .error e, fun _ => rfl, fun _ _ _ h => by cases h⟩
  | ok path =>
    cases hop : OverrideOp.ofDecl o with
    | error e => exact ⟨"", fun _ => .error e, fun _ => rfl, fun _ _ _ h => by cases h⟩
    | ok op =>
      obtain ⟨key, rest, hsegments⟩ := path.segments_withinSpec
      rcases List.eq_nil_or_concat rest with rfl | ⟨below, last, rfl⟩
      · exact ⟨key, _, OverridePath.changes_part hsegments op h⟩
      · exact ⟨key, _, OverridePath.changes_below (hsegments.trans (by rw [List.concat_eq_append])) op o.value⟩

/-- Overrides make a map of a map. -/
theorem applyAll_map {u : Tree} (h : applyAll overrides (.map spec) = .ok u) : ∃ made : Table Tree, u = .map made := by
  refine foldlM_keeps (q := fun t : Tree => ∃ made : Table Tree, t = .map made) (fun o _ t u ht hstep => ?_) ⟨spec, rfl⟩ h
  obtain ⟨spec, rfl⟩ := ht
  obtain ⟨path, _, hstep⟩ := bind_eq_ok.mp hstep
  obtain ⟨op, _, hstep⟩ := bind_eq_ok.mp hstep
  obtain ⟨key, rest, hsegments⟩ := path.segments_withinSpec
  rcases List.eq_nil_or_concat rest with rfl | ⟨below, last, rfl⟩
  · rw [OverridePath.apply_part hsegments] at hstep
    cases hstep
    exact ⟨_, rfl⟩
  · rw [OverridePath.apply_below (hsegments.trans (by rw [List.concat_eq_append]))] at hstep
    obtain ⟨_, _, hstep⟩ := bind_eq_ok.mp hstep
    cases hstep
    exact ⟨_, rfl⟩

/-- Overrides make a tidy spec of a tidy spec. -/
theorem applyAll_tidy (hvalues : ∀ o ∈ overrides, o.value.Keyed) {t u : Tree} (h : t.Tidy)
    (hu : applyAll overrides t = .ok u) : u.Tidy := by
  refine foldlM_keeps (fun o ho t u h hstep => ?_) h hu
  obtain ⟨spec, rfl, htidy⟩ := h
  obtain ⟨key, change, hchanges⟩ := changes (hvalues o ho)
  obtain ⟨made, hmade, hchanged⟩ := bind_eq_ok.mp ((hchanges.eq spec).symm.trans hstep)
  cases hchanged
  refine ⟨_, rfl, htidy.assign fun v hv => ?_⟩
  cases Option.mem_def.mp hv
  exact hchanges.keyed _ v (fun u hu => htidy.keyed_at hu) hmade

/-- Overrides do to two specs with the same parts the same. -/
theorem applyAll_same (hvalues : ∀ o ∈ overrides, o.value.Keyed) (h : spec.Same spec') :
    (∃ e, applyAll overrides (.map spec) = .error e ∧ applyAll overrides (.map spec') = .error e) ∨
      ∃ changed changed' : Table Tree, applyAll overrides (.map spec) = .ok (.map changed) ∧
        applyAll overrides (.map spec') = .ok (.map changed') ∧ changed.Same changed' := by
  induction overrides generalizing spec spec' with
  | nil => exact .inr ⟨spec, spec', rfl, rfl, h⟩
  | cons o rest ih =>
    obtain ⟨hfirst, hrest⟩ := List.forall_mem_cons.mp hvalues
    obtain ⟨key, change, hchanges⟩ := changes hfirst
    have hstep : ∀ s : Table Tree, applyAll (o :: rest) (.map s) =
        change (s.valueAt? key) >>= fun made => applyAll rest (.map (s.assign key made)) := by
      intro s
      show (o.apply (.map s) >>= fun t => applyAll rest t) = _
      rw [hchanges.eq, bind_assoc]
      rfl
    rw [hstep, hstep, h.values key]
    cases change (spec'.valueAt? key) with
    | error e => exact .inl ⟨e, rfl, rfl⟩
    | ok made => exact ih hrest (h.assign key made)

end OverrideDecl

end Bitpress
