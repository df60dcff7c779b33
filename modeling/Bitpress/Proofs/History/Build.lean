import Bitpress.Proofs.History.Resolution
import Bitpress.Proofs.Inheritance.Likeness
import Bitpress.Proofs.Load.Build

/-!
Two builds of the same registry.

If the loads that the builds ask for go alike (`Runs.Fetches`), the builds go
alike, and make the same contents under different identities (`build_alike`).
-/

namespace Bitpress

open Likeness

variable {R : Runs} {held : List Location} {C : Prop}

/-- Collections whose elements belong together one by one. -/
def Tie.collection {α : Type} (T : Tie α α) : Tie (Collection α) (Collection α) :=
  ⟨Collection.map T.image, fun c => ∀ a ∈ c.items, T.good a⟩

namespace Runs

/-- Two loads of one registry, after which it is loaded in both stores. -/
structure Fetches (R : Runs) (C : Prop) (p : Location) (x y : StoreM Unit) : Prop where
  spent : ∀ s : Store, R.Spent s → R.Spent (effect x s).2
  ends : C → ∀ held s t, R.Stores held s t → ¬ R.Spent (effect x s).2 →
    (R.stores (held ++ [p])).Ends .same (effect x s) (effect y t)

def targets (R : Runs) : Tie Target Target := ⟨Target.rename R.rename, fun _ => True⟩

end Runs

theorem Runs.Fetches.given {D : Prop} {p : Location} {x y : StoreM Unit} (h : R.Fetches C p x y) (hD : D → C) :
    R.Fetches D p x y :=
  ⟨h.spent, fun d => h.ends (hD d)⟩

namespace Load

open Runs

variable {l : Library} {fetch fetch' : Location → StoreM Unit} {trail : List Location} {r r' : Resolver}

/-! ### Other registries -/

/-- What another registry holds once it is loaded. -/
theorem depend_alike (hfetch : ∀ p, p ∉ trail → R.Fetches C p (fetch p) (fetch' p)) (p : Location) :
    (R.buildings held).Alike C (depend fetch trail p) (depend fetch' trail p) R.contents := by
  refine ⟨fun b hb => ?_, fun hC b c hbc hspent => ?_⟩
  · rw [effect_depend]
    split
    · exact hb
    · cases hcycle : checkCycle trail p with
      | error e => exact hb
      | ok _ =>
        have hkept := (hfetch p (checkCycle_eq_ok.mp hcycle)).spent b.store hb
        rcases heffect : effect (fetch p) b.store with ⟨_ | _, s⟩ <;> rwa [heffect] at hkept
  · obtain ⟨hstores, hdependencies, htrails⟩ := hbc
    rw [effect_depend] at hspent ⊢
    rw [effect_depend, hdependencies]
    split
    · rename_i hthere
      have hcurrent := hstores.held p (List.mem_append_right _ (List.contains_iff_mem.mp hthere))
      have hcontents := hstores.contents p hcurrent
      exact ⟨hcontents.1, hcontents.2, hstores, hdependencies, htrails⟩
    · rename_i hnew
      rw [if_neg hnew] at hspent
      revert hspent
      cases hcycle : checkCycle trail p with
      | error e => exact fun _ => hstores.known
      | ok _ =>
        dsimp only
        have hends := (hfetch p (checkCycle_eq_ok.mp hcycle)).ends hC _ b.store c.store hstores
        revert hends
        rcases effect (fetch p) b.store with ⟨_ | _, s⟩ <;>
          rcases effect (fetch' p) c.store with ⟨_ | _, t⟩ <;> intro hends hspent
        · exact hends hspent
        · exact hends hspent
        · exact hends hspent
        · obtain ⟨_, _, hafter⟩ := hends hspent
          have hcurrent := hafter.held p (List.mem_append_right _ (List.mem_singleton_self p))
          have hcontents := hafter.contents p hcurrent
          refine ⟨hcontents.1, hcontents.2, ?_, rfl, htrails⟩
          rw [List.append_assoc] at hafter
          exact hafter

theorem importContents_alike (hfetch : ∀ p, p ∉ trail → R.Fetches C p (fetch p) (fetch' p)) (file : Location)
    (d : ImportDecl) :
    (R.buildings held).Alike C (importContents l fetch trail file d) (importContents l fetch' trail file d)
      R.contents.option := by
  refine same_bind _ fun p _ => dependencies_alike fun b c hbc => ?_
  rw [hbc]
  split
  · exact .bind (press_alike (warn_alike _ _)) fun _ => .pure rfl fun _ _ h => (by cases h)
  · refine .bind (depend_alike hfetch p) fun contents => .pure rfl fun h found he => ?_
    cases he
    exact h.2

/-! ### Targets -/

/-- The declarations of targets are the same in both runs. -/
theorem targetSource_alike (hr : R.Resolvers held C r r') {d : RegistryDocument} (hd : C → d.AllTexts R.Fixed) :
    Inheritance.SourcesAlike (R.buildings held) C R.Fixed (targetSource r d) (targetSource r' d) := by
  refine ⟨fun file name => ?_, fun file reference => ?_, fun ws => ?_⟩
  · unfold targetSource
    dsimp only
    rw [hr.path]
    split
    · exact .pure rfl fun c decl hdecl => (hd c).target? hdecl
    · refine .bind (hr.depend file) fun contents => .pure rfl fun h decl hdecl => ?_
      obtain ⟨document, hdocument, hdecl⟩ := Option.bind_eq_some_iff.mp hdecl
      exact (h.2.document document hdocument).target? hdecl
  · show (R.buildings held).Alike C (Build.ofOutcome (r.library.locateFrom file reference))
      (Build.ofOutcome (r'.library.locateFrom file reference)) .same
    rw [hr.library]
    exact outcome_alike (.same _) fun _ _ _ => trivial
  · refine ⟨fun b hb => hb, fun _ b c hbc _ => ⟨rfl, trivial, ?_, hbc.2⟩⟩
    exact hbc.1.withSession ⟨hbc.1.session.first, hbc.1.session.ahead, hbc.1.session.words⟩

def specs (R : Runs) : Tie (TargetSpec × Inheritance.Memo) (TargetSpec × Inheritance.Memo) :=
  ⟨id, fun out => out.1.AllTexts R.Fixed ∧ ∀ e ∈ out.2, e.2.AllTexts R.Fixed⟩

theorem specOf_alike (hr : R.Resolvers held C r r') (targets : Nat) {d : RegistryDocument}
    (hd : C → d.AllTexts R.Fixed) {memo : Inheritance.Memo} (hmemo : C → ∀ e ∈ memo, e.2.AllTexts R.Fixed)
    {decl : TargetDecl} (hdecl : C → decl.AllTexts R.Fixed) :
    (R.buildings held).Alike C (specOf r targets d memo decl) (specOf r' targets d memo decl) (specs R) := by
  have hon : ∀ r : Resolver, specOf r targets d memo decl =
      (fun out => (out.1, out.2.memo)) <$>
        (Inheritance.specOf (targetSource r d) (targets + 1) r.path decl).on { memo } := by
    intro r
    funext b
    have hspec : specOf r targets d memo decl b =
      (let out := (Inheritance.specOf (targetSource r d) (targets + 1) r.path decl).at { memo } b
      (out.1.1.map fun spec => (spec, out.1.2.memo), out.2)) := rfl
    have hvisit : effect ((Inheritance.specOf (targetSource r d) (targets + 1) r.path decl).on { memo }) b =
      (let out := (Inheritance.specOf (targetSource r d) (targets + 1) r.path decl).at { memo } b
      (out.1.1.map fun spec => (spec, out.1.2), out.2)) := rfl
    show specOf r targets d memo decl b = effect (_ <$> _) b
    rw [map_eq_pure_bind, effect_bind, hspec, hvisit]
    rcases (Inheritance.specOf (targetSource r d) (targets + 1) r.path decl).at { memo } b with ⟨⟨_ | _, v⟩, b'⟩ <;> rfl
  rw [hon, hon, hr.path]
  refine .map (((Inheritance.specOf_alike (targetSource_alike hr hd) (targets + 1) r.path hdecl).on
    { memo }).given fun c => ⟨c, hmemo c⟩) (fun _ => rfl) fun _ out hout => hout

theorem targetOf_alike (hr : R.Resolvers held C r r') (d : RegistryDocument) (decl : TargetDecl) {spec : TargetSpec}
    (hspec : C → spec.AllTexts R.Fixed) :
    (R.buildings held).Alike C (targetOf r d decl spec) (targetOf r' d decl spec) R.targets := by
  have hrun := Resolver.run_alike hr (Resolver.overlay_alike hr)
  unfold targetOf
  rw [hr.path, hr.library]
  refine .bind (Resolver.variablesOf_alike hrun spec.context fun c => (hspec c).context) fun static => ?_
  refine .bind ((hrun spec.queries spec.compose).given fun h => ⟨h.1, (hspec h.1).queries⟩) fun found => ?_
  dsimp only
  split
  · refine same_bind _ fun dest _ => ?_
    refine .bind (press_alike (create_alike _ _ _)) fun info => .pure ?_ fun _ => trivial
    show (⟨_, _, Context.merge _ _, dest⟩ : Target) = Target.rename R.rename _
    unfold Target.rename
    rw [Context.rename_merge]
    rfl
  · exact .throw _ _

def targetsMade (R : Runs) : Tie (Collection Target × Inheritance.Memo) (Collection Target × Inheritance.Memo) :=
  ⟨fun out => (out.1.map (Target.rename R.rename), out.2), fun out => ∀ e ∈ out.2, e.2.AllTexts R.Fixed⟩

theorem targetsOf_alike (hr : R.Resolvers held C r r') (targets : Nat) {d : RegistryDocument}
    (hd : C → d.AllTexts R.Fixed) :
    (R.buildings held).Alike C (targetsOf r targets d) (targetsOf r' targets d) R.targets.collection := by
  refine .bind (R := targetsMade R) (Alike.foldlM_same (R := targetsMade R)
    (a := ((.empty, []) : Collection Target × Inheritance.Memo)) (fun decl hdecl made => ?_)
    fun _ _ h => (by cases h)) fun made => .pure rfl fun _ _ _ => trivial
  have hplain : C ∧ (targetsMade R).good made → decl.AllTexts R.Fixed := fun h => (hd h.1).targets decl hdecl
  refine .bind (R := R.targets.pair ⟨id, fun memo => ∀ e ∈ memo, e.2.AllTexts R.Fixed⟩) (within_alike _ _ ?_)
    fun out => ?_
  · refine .bind (specOf_alike (hr.given And.left) targets (fun h => hd h.1) (fun h => h.2) hplain) fun found => ?_
    refine .bind (targetOf_alike (hr.given fun h => h.1.1) d decl fun h => h.2.1) fun target => .pure rfl fun h => ?_
    exact ⟨trivial, h.1.2.2⟩
  · refine .bind (outcome_alike (T := R.targets.collection)
      (Collection.push_map R.rename_injective (Target.renames R.rename) made.1 out.1) fun _ _ _ _ _ => trivial)
      fun more => .pure rfl fun h => h.1.2.2

theorem targetsFor_alike (hr : R.Resolvers held C r r') (targets : Nat) (mode : LoadMode) {d : RegistryDocument}
    (hd : C → d.AllTexts R.Fixed) :
    (R.buildings held).Alike C (targetsFor r targets mode d) (targetsFor r' targets mode d)
      R.targets.collection := by
  cases mode with
  | full => exact targetsOf_alike hr targets hd
  | dependency => exact .pure rfl fun _ _ h => (by cases h)

/-! ### Builds -/

theorem elementsOf_alike {α δ : Type} [Element α] {T : Tie α α} (hT : Element.Renames R.rename T.image) {make : δ → Press α}
    {decls : List δ} (hmake : ∀ d ∈ decls, R.sessions.Alike C (make d) (make d) T) :
    (R.buildings held).Alike C (elementsOf make decls) (elementsOf make decls) T.collection := by
  refine Alike.foldlM_same (R := T.collection) (a := (.empty : Collection α)) (fun d hd made => ?_)
    fun _ _ h => (by cases h)
  refine .bind (press_alike ((hmake d hd).given And.left)) fun a => ?_
  refine outcome_alike (Collection.push_map R.rename_injective hT made a) fun h more hmore b hb => ?_
  unfold Collection.push at hmore
  split at hmore
  · cases hmore
  · cases hmore
    rcases List.mem_append.mp hb with hb | hb
    · exact h.1.2 b hb
    · exact List.mem_singleton.mp hb ▸ h.2

theorem absorbed_map {α : Type} [Element α] {h : α → α} (hr : Element.Renames R.rename h)
    {part : Contents → Collection α} (hpart : ∀ c : Contents, part (c.rename R.rename) = (part c).map h)
    (imported : List Contents) (c : Collection α) :
    (imported.map (Contents.rename R.rename)).foldl (fun c i => c.absorb (part i).items) (c.map h) =
      (imported.foldl (fun c i => c.absorb (part i).items) c).map h := by
  induction imported generalizing c with
  | nil => rfl
  | cons i rest ih =>
    rw [List.map_cons, List.foldl_cons, List.foldl_cons, ← ih, hpart]
    congr 1
    exact Collection.absorb_map R.rename_injective hr c (part i).items

/-- What was imported is imported under other identities. -/
theorem imported_map (f : ElementId → ElementId) (found : List (Option Contents)) :
    (found.map (Option.map (Contents.rename f))).filterMap id = (found.filterMap id).map (Contents.rename f) := by
  rw [List.filterMap_map, List.map_filterMap]
  rfl

/-- The bits that a registry holds are its own or those of registries that it imports. -/
theorem absorbed_good {own : Collection Bit} (hown : ∀ b ∈ own.items, R.bits.good b) {found : List (Option Contents)}
    (hfound : R.contents.option.list.good found) :
    ∀ b ∈ ((found.filterMap id).foldl (fun c i => c.absorb i.bits.items) own).items, R.bits.good b := by
  intro b hb
  rcases Collection.mem_of_mem_foldl hb with hb | ⟨i, hi, hb⟩
  · exact hown b hb
  · obtain ⟨_, hmem, hi⟩ := List.mem_filterMap.mp hi
    exact (hfound _ hmem i hi).bits b hb

theorem build_alike (hfetch : ∀ p, p ∉ trail → R.Fetches C p (fetch p) (fetch' p))
    (hplain : ∀ p d, l.document p = .ok d → d.AllTexts R.Fixed) (extent : Library.Extent) (mode : LoadMode)
    (p : Location) :
    (R.buildings held).Alike C (build l extent fetch mode trail p) (build l extent fetch' mode trail p)
      R.contents := by
  refine same_bind _ fun d hd => ?_
  have hd := hplain p d hd
  refine .bind (elementsOf_alike (T := R.bits) (Bit.renames R.rename) fun b hb =>
    bitOfDecl_alike b d.tags fun _ => hd.bits b hb) fun ownBits => ?_
  refine .bind (elementsOf_alike (T := R.constants) (Constant.renames R.rename) fun c _ =>
    constantOfDecl_alike c d.tags) fun ownConstants => ?_
  refine .bind (.mapM_same fun i _ => importContents_alike (fun q hq => (hfetch q hq).given fun h => h.1.1) p i)
    fun found => ?_
  -- What was imported, and what the registry holds of it.
  have himported : (R.contents.option.list.image found).filterMap id = (found.filterMap id).map (Contents.rename R.rename) :=
    imported_map R.rename found
  have hgood : R.bits.collection.good ownBits → R.contents.option.list.good found →
      ∀ b ∈ ((found.filterMap id).foldl (fun c i => c.absorb i.bits.items) ownBits).items, R.bits.good b :=
    fun hown hfound => absorbed_good hown hfound
  dsimp only
  rw [himported]
  revert hgood
  generalize found.filterMap id = imported
  intro hgood
  have hbits : (imported.map (Contents.rename R.rename)).foldl (fun c i => c.absorb i.bits.items)
      (R.bits.collection.image ownBits) =
        R.bits.collection.image (imported.foldl (fun c i => c.absorb i.bits.items) ownBits) :=
    absorbed_map (Bit.renames R.rename) (fun _ => rfl) imported ownBits
  have hconstants : (imported.map (Contents.rename R.rename)).foldl (fun c i => c.absorb i.constants.items)
      (R.constants.collection.image ownConstants) =
        R.constants.collection.image (imported.foldl (fun c i => c.absorb i.constants.items) ownConstants) :=
    absorbed_map (Constant.renames R.rename) (fun _ => rfl) imported ownConstants
  rw [hbits, hconstants]
  revert hgood
  generalize imported.foldl (fun c i => c.absorb i.bits.items) ownBits = bits
  generalize imported.foldl (fun c i => c.absorb i.constants.items) ownConstants = constants
  intro hgood
  have hr : R.Resolvers held (((C ∧ R.bits.collection.good ownBits) ∧ R.constants.collection.good ownConstants) ∧
      R.contents.option.list.good found) ⟨l, p, bits, constants, extent.presets, depend fetch trail⟩
      ⟨l, p, R.bits.collection.image bits, R.constants.collection.image constants, extent.presets, depend fetch' trail⟩ :=
    ⟨rfl, rfl, rfl, fun h => hgood h.1.1.2 h.2, rfl, rfl,
      depend_alike fun q hq => (hfetch q hq).given fun h => h.1.1.1⟩
  have hitems : (R.bits.collection.image ownBits).items = ownBits.items.map (Bit.rename R.rename) := rfl
  rw [hitems]
  refine .bind (R := R.contexts.list) (.mapM fun b hb => ?_) fun _ => ?_
  · exact Resolver.ofChoice_alike hr _ (fun h => h.1.1.2 b hb) fun _ _ _ h => (by cases h)
  refine .bind (targetsFor_alike (hr.given And.left) extent.targets mode fun _ => hd) fun ownTargets => ?_
  refine dependencies_alike fun b c hbc => .pure ?_ fun h => ⟨hgood h.1.1.1.1.2 h.1.1.2, fun _ he => ?_⟩
  · have htargets : (imported.map (Contents.rename R.rename)).foldl (fun c i => c.absorb i.targets.items)
        (R.targets.collection.image ownTargets) =
          (imported.foldl (fun c i => c.absorb i.targets.items) ownTargets).map (Target.rename R.rename) :=
      absorbed_map (Target.renames R.rename) (fun _ => rfl) imported ownTargets
    rw [htargets, hbc]
    rfl
  · cases he
    exact hd

end Load

end Bitpress
