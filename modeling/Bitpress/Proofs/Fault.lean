import Bitpress.Load
import Bitpress.Proofs.Collection
import Bitpress.Proofs.Course
import Bitpress.Proofs.Override.Place
import Bitpress.Proofs.Selection

/-!
Which errors come from where.

A plain error says something about one declaration or one file: it is not about
references that lead nowhere or back, nor about two elements with one identity,
nor about want of room, and no load has passed it on. Reading, merging, querying and composing throw plain
errors only; what is left for the loads to throw is what `Error.Plain` leaves out.
None of these steps takes back an identity that was given out (`Press.Orderly`).
-/

namespace Bitpress

open Outcome

namespace Error

/-- An error about one declaration or one file. -/
def Plain : Error → Prop
  | within _ source => source.Plain
  | registryLoad .. => False
  | reference _ => False
  | duplicateElement _ => False
  | depthExceeded => False
  | _ => True

variable {e : Error}

theorem Plain.within (h : e.Plain) (context : String) : (within context e).Plain := h

theorem Plain.root (h : e.Plain) : e.root.Plain := by
  induction e with
  | within _ _ ih => exact ih h
  | registryLoad => exact h.elim
  | _ => exact h

theorem Plain.blameless (h : e.Plain) : e.Blameless := by
  induction e with
  | within _ _ ih => exact ih h
  | registryLoad => exact h.elim
  | _ => rfl

end Error

theorem Outcome.Fails.blameless {α : Type} {x : Outcome α} (h : Fails Error.Plain x) : Fails Error.Blameless x :=
  fun e he => (h e he).blameless

/-! ### Overrides and merging -/

theorem OverridePath.parse_fails (raw : String) : Fails Error.Plain (OverridePath.parse raw) := by
  unfold OverridePath.parse
  split
  · exact .ok _
  · exact .error trivial

theorem OverrideOp.ofDecl_fails (o : OverrideDecl) : Fails Error.Plain (OverrideOp.ofDecl o) := by
  unfold OverrideOp.ofDecl OverrideOp.read
  split
  · dsimp only
    repeat' split
    · exact .ok _
    · exact .ok _
    · exact .ok _
    · exact .error trivial
  · exact .ok _

theorem OverridePath.fault_plain (p : OverridePath) (reason : String) : (p.fault reason).Plain := trivial

theorem OverridePath.walk_fails (p : OverridePath) (passed : String) (t : Tree) (segments : List Segment) :
    Fails Error.Plain (p.walk passed t segments) := by
  induction segments generalizing passed t with
  | nil => exact .ok _
  | cons s rest ih =>
    unfold OverridePath.walk
    dsimp only
    split
    · exact ih _ _
    · exact .error (p.fault_plain _)

theorem OverridePath.checkLast_fails (p : OverridePath) (op : OverrideOp) (node : Tree) (s : Segment) :
    Fails Error.Plain (p.checkLast op node s) := by
  unfold OverridePath.checkLast
  repeat' split
  all_goals first
    | exact .ok _
    | exact .error (p.fault_plain _)

theorem OverridePath.apply_fails (p : OverridePath) (op : OverrideOp) (value t : Tree) :
    Fails Error.Plain (p.apply op value t) := by
  have hvalidate : Fails Error.Plain (p.validate op t) := by
    unfold OverridePath.validate
    split
    · exact .error (p.fault_plain _)
    · exact .bind (p.walk_fails _ _ _) fun _ => p.checkLast_fails _ _ _
  rcases List.eq_nil_or_concat p.segments with h | ⟨path, last, h⟩
  · rw [OverridePath.apply_of_nil h]
    exact .error (p.fault_plain _)
  · rw [OverridePath.apply_eq (h.trans List.concat_eq_append)]
    exact .bind hvalidate fun _ => .ok _

theorem OverrideDecl.applyAll_fails (overrides : List OverrideDecl) (t : Tree) :
    Fails Error.Plain (OverrideDecl.applyAll overrides t) :=
  .foldlM fun _ o => .bind (OverridePath.parse_fails _) fun _ =>
    .bind (OverrideOp.ofDecl_fails o) fun _ => OverridePath.apply_fails _ _ _ _

theorem MergeHints.policy_fails (h : MergeHints) (part : Part) : Fails Error.Plain (h.policy part) := by
  unfold MergeHints.policy
  split
  · exact .ok _
  · dsimp only
    repeat' split
    · exact .ok _
    · exact .ok _
    · exact .error trivial

namespace Inheritance

theorem mergePart_fails (hints : MergeHints) (acc : Table Tree) (key : String) (value : Tree) :
    Fails Error.Plain (mergePart hints acc key value) := by
  have hpolicy : Fails Error.Plain (policyOf hints key) := by
    unfold policyOf
    split
    · exact hints.policy_fails _
    · exact hints.policy_fails _
    · exact hints.policy_fails _
    · exact .ok _
  refine .bind hpolicy fun policy => ?_
  split <;> exact .ok _

theorem mergeOwn_fails (d : TargetDecl) (t : Tree) : Fails Error.Plain (mergeOwn d t) := by
  unfold mergeOwn
  split
  · exact .bind (.foldlM fun _ _ => mergePart_fails _ _ _ _) fun _ => .ok _
  · exact .ok _

theorem mergeBase_fails (t : Tree) (b : Resolved) : Fails Error.Plain (mergeBase t b) :=
  OverrideDecl.applyAll_fails _ _

end Inheritance

/-! ### Files, references and presets -/

theorem Outcome.ofFiles_fails (r : Except FileFault α) : Fails Error.Plain (Outcome.ofFiles r) := by
  cases r with
  | error e => exact .error trivial
  | ok a => exact .ok a

theorem Library.locate_fails (l : Library) (p : Location) : Fails Error.Plain (l.locate p) := by
  unfold Library.locate
  repeat' split
  · exact .error trivial
  · exact .ok _
  · exact .error trivial
  · exact .ok _

theorem Library.locateFrom_fails (l : Library) (file : Location) (reference : String) :
    Fails Error.Plain (l.locateFrom file reference) := l.locate_fails _

theorem Library.document_fails (l : Library) (p : Location) : Fails Error.Plain (l.document p) := by
  have hformat : Fails Error.Plain (DocumentFormat.ofLocation p) := by
    unfold DocumentFormat.ofLocation DocumentFormat.ofExtension
    dsimp only
    split
    all_goals first
      | exact .ok _
      | exact .error trivial
  refine .bind hformat fun format => .bind (Outcome.ofFiles_fails _) fun text => ?_
  unfold Document.parse
  cases (Document.readTree format text).bind (Document.ofTree l.config.vars) with
  | error e => exact .error trivial
  | ok d => exact .ok d

theorem Target.destination_fails (dest source : Location) (name : String) :
    Fails Error.Plain (Target.destination dest source name) := by
  unfold Target.destination
  repeat' split
  · exact .ok _
  · exact .ok _
  · exact .error trivial

theorem PresetDecl.tree_fails (b : Bit) (p : PresetDecl) : Fails Error.Plain (p.tree b) := by
  have hlaid : ∀ part base own, Fails Error.Plain (p.laidOver part base own) := fun part base own =>
    .bind (p.merge.policy_fails part) fun policy => by cases policy <;> exact .ok _
  refine .bind (hlaid _ _ _) fun queries => .bind (hlaid _ _ _) fun compose => ?_
  split
  · exact .bind (.error trivial) fun _ => OverrideDecl.applyAll_fails _ _
  · exact OverrideDecl.applyAll_fails _ _

theorem QueryEntry.read_fails (name : String) (t : Tree) : Fails Error.Plain (QueryEntry.read name t) := by
  unfold QueryEntry.read
  dsimp only
  split
  · cases List.mapM QuerySpec.decode _ with
    | error e => exact .error trivial
    | ok specs => exact .ok _
  · cases QuerySpec.decode _ with
    | error e => exact .error trivial
    | ok q => exact .ok _
  · exact .ok _
  · exact .error trivial

theorem ComposeSpec.readTable_fails (compose : Table Tree) : Fails Error.Plain (ComposeSpec.readTable compose) := by
  unfold ComposeSpec.readTable
  induction compose with
  | nil => exact .ok _
  | cons e rest ih =>
    rw [List.mapM_cons]
    refine .bind ?_ fun _ => .bind ih fun _ => .ok _
    dsimp only
    repeat' split
    · exact .ok _
    · exact .ok _
    · exact .error trivial

/-! ### Steps -/

/-- Steps that fail with plain errors only and that take back no identity that was given out. -/
def Press.course : Course Session where
  inv _ := True
  le s t := s.identities ≤ t.identities
  err := Error.Plain
  refl _ := Nat.le_refl _
  trans := Nat.le_trans

structure Press.Orderly (x : Press α) : Prop where
  comes : ∀ s, Comes Press.course x s fun _ _ => True

namespace Press.Orderly

variable {α β : Type}

theorem pure (a : α) : Orderly (Pure.pure a) := ⟨fun _ => .pure trivial trivial⟩

theorem throw {e : Error} (h : e.Plain) : Orderly (MonadExcept.throw e : Press α) := ⟨fun _ => .throw h⟩

theorem bind {x : Press α} {f : α → Press β} (hx : Orderly x) (hf : ∀ a, Orderly (f a)) : Orderly (x >>= f) :=
  ⟨fun s => (hx.comes s).bind fun a t _ _ _ => (hf a).comes t⟩

theorem foldlM {f : β → α → Press β} (hf : ∀ b a, Orderly (f b a)) (xs : List α) (b : β) :
    Orderly (xs.foldlM f b) :=
  ⟨fun _ => .foldlM trivial trivial fun b a t _ _ _ _ => (hf b a).comes t⟩

theorem ofOutcome {r : Outcome α} (h : Fails Error.Plain r) : Orderly (Press.ofOutcome r) :=
  ⟨fun s => .of_effect (effect_ofOutcome r s) (fun _ _ => ⟨trivial, Nat.le_refl s.identities, trivial⟩) h⟩

theorem warn (w : Warning) : Orderly (Press.warn w) := ⟨fun s => .modify trivial (Nat.le_refl s.identities) trivial⟩

theorem warnAll (ws : List Warning) : Orderly (Press.warnAll ws) :=
  ⟨fun s => .modify trivial (Nat.le_refl s.identities) trivial⟩

theorem freshId : Orderly Press.freshId :=
  ⟨fun s => .of_effect (t := { s with identities := s.identities + 1 }) rfl
    (fun _ _ => ⟨trivial, Nat.le_succ s.identities, trivial⟩) fun _ h => by cases h⟩

theorem randomSource (seed : Option Nat) : Orderly (Press.randomSource seed) := by
  cases seed with
  | some seed => exact .pure _
  | none =>
    exact ⟨fun s => .of_effect (t := { s with choices := s.choices + 1 }) rfl
      (fun _ _ => ⟨trivial, Nat.le_refl s.identities, trivial⟩) fun _ h => by cases h⟩

/-- Steps of the session blame no registry. -/
theorem blameless {x : Press α} (hx : Orderly x) {s t : Session} {e : Error} (h : effect x s = (.error e, t)) :
    e.Blameless := ((hx.comes s).error e t h).blameless

end Press.Orderly

open Press (Orderly)

theorem ElementInfo.create_orderly (name : Option String) (tags : List String) (metadata : Table Tree) :
    Orderly (ElementInfo.create name tags metadata) :=
  .bind .freshId fun _ => .pure _

theorem Bit.ofDecl_orderly (d : BitDecl) (tags : List String) : Orderly (Bit.ofDecl d tags) := by
  have hrest : Orderly (do
      Press.warnAll ((d.presets.filter isReserved).map fun _ => reservedWarning (d.name.getD "<unnamed>"))
      let info ← ElementInfo.create d.name (d.tags ++ tags) (declaredMetadata d)
      Press.warnAll (DefaultsSpec.warnings d.defaults)
      return (⟨info, d.src, .ofTable d.defaults, d.presets.filter fun p => !isReserved p⟩ : Bit)) :=
    .bind (.warnAll _) fun _ => .bind (ElementInfo.create_orderly _ _ _) fun _ => .bind (.warnAll _) fun _ => .pure _
  unfold Bit.ofDecl
  dsimp only
  split
  · exact .bind (.throw trivial) fun _ => hrest
  · exact hrest

theorem Constant.ofDecl_orderly (d : ConstantDecl) (tags : List String) :
    Orderly (Constant.ofDecl d tags) :=
  .bind (ElementInfo.create_orderly _ _ _) fun _ => .pure _

theorem Filter.namePattern_fails (written : String) : Fails Error.Plain (Filter.namePattern written) := by
  unfold Filter.namePattern
  cases Pattern.parse? ("^(?:" ++ written ++ ")") with
  | none => exact .error trivial
  | some p => exact .ok p

theorem Collection.filter_fails [Element α] (c : Collection α) (f : Filter) : Fails Error.Plain (c.filter f) := by
  unfold Collection.filter
  exact .bind (.option Filter.namePattern_fails f.name) fun _ => .ok _

theorem Collection.query_fails [Element α] (c : Collection α) (id : Option ElementId) (f : Filter) :
    Fails Error.Plain (c.query id f) := by
  cases id with
  | none => exact c.filter_fails f
  | some id =>
    unfold Collection.query Collection.findById
    refine .bind ?_ fun a => Collection.filter_fails _ f
    split
    · exact .ok _
    · exact .error trivial

theorem Collection.whereClause_fails [Element α] (c : Collection α) (w : WhereClause) :
    Fails Error.Plain (c.whereClause w) := by
  unfold Collection.whereClause
  refine .bind (.option (fun written => ?_) w.id) fun id => .bind (c.query_fails id _) fun _ => .ok _
  cases ElementId.read? (Text.trim written) with
  | none => exact .error trivial
  | some id => exact .ok id

/-- Nothing is picked that was not found. -/
theorem Query.picked_comes (q : QuerySpec) (found : Collection α) (s : Session) :
    Comes Press.course (Query.picked q found) s fun items _ => ∀ a ∈ items, a ∈ found.items := by
  unfold Query.picked
  split
  · rename_i spec _
    have hdone : ∀ (x : Press RandomSource), Orderly x →
        Comes Press.course (x >>= fun source => return Selection.pick source spec found.items) s
          fun items _ => ∀ a ∈ items, a ∈ found.items :=
      fun x hx => (hx.comes s).bind fun source _ _ _ _ => .pure trivial fun a ha => Selection.mem_pick ha
    unfold Query.selected
    split
    · exact hdone _ (.randomSource _)
    · exact hdone _ (.pure _)
  · exact .pure trivial fun _ ha => ha

/-- A query finds nothing that is not in the collection. -/
theorem Query.matching_comes [Element α] (c : Collection α) (q : QuerySpec) (s : Session) :
    Comes Press.course (Query.matching c q) s fun found _ => ∀ a ∈ found, a ∈ c.items := by
  have hpick : ∀ (found : Collection α) t, (∀ a ∈ found.items, a ∈ c.items) →
      Comes Press.course (Query.picked q found) t fun items _ => ∀ a ∈ items, a ∈ c.items :=
    fun found t hfound => (Query.picked_comes q found t).imp fun _ _ _ _ hitems a ha => hfound a (hitems a ha)
  unfold Query.matching
  dsimp only
  split
  · rename_i clause _
    have hclause : Comes Press.course (Press.ofOutcome (c.whereClause clause)) s
        fun found _ => ∀ a ∈ found.items, a ∈ c.items :=
      .of_effect (Press.effect_ofOutcome _ s)
        (fun found hfound => ⟨trivial, Nat.le_refl _, fun _ ha => Collection.mem_whereClause hfound ha⟩)
        (c.whereClause_fails clause)
    exact hclause.bind fun found t _ _ hfound => hpick found t hfound
  · exact (Comes.pure trivial fun _ ha => ha).bind fun found t _ _ hfound => hpick found t hfound

theorem Query.matching_orderly [Element α] (c : Collection α) (q : QuerySpec) : Orderly (Query.matching c q) :=
  ⟨fun s => (matching_comes c q s).safe⟩

theorem PresetChoice.choose_fails (b : Bit) (selector : Option PresetSelector) :
    Fails Error.Plain (choose b selector) := by
  have hplace : ∀ i, Fails Error.Plain (atPlace b i) := by
    intro i
    unfold atPlace
    split
    · exact .ok _
    · exact .error trivial
  unfold choose
  dsimp only
  repeat' split
  · exact .ok _
  · exact hplace _
  · exact .ok _
  · exact .ok _
  · exact hplace _
  · exact .error trivial

theorem Preset.chosen_comes (b : Bit) (selector : Option PresetSelector) (s : Session) :
    Comes Press.course (Preset.chosen b selector) s fun choice _ => PresetChoice.choose b selector = .ok choice := by
  have hchoose : ∀ t, Comes Press.course (Press.ofOutcome (PresetChoice.choose b selector)) t
      fun choice _ => PresetChoice.choose b selector = .ok choice := fun t =>
    .of_effect (Press.effect_ofOutcome _ t) (fun choice h => ⟨trivial, Nat.le_refl t.identities, h⟩)
      (PresetChoice.choose_fails b selector)
  unfold Preset.chosen
  split
  · exact ((Orderly.warn _).comes s).bind fun _ t _ _ _ => hchoose t
  · exact hchoose s

theorem Preset.chosen_orderly (b : Bit) (selector : Option PresetSelector) : Orderly (Preset.chosen b selector) :=
  ⟨fun s => (chosen_comes b selector s).safe⟩

namespace Compose

theorem one_fails (source : RandomSource) (groups : List (List ContextValue)) (grouped : Bool)
    (spec : ComposeSpec) : Fails Error.Plain (one source groups grouped spec) := by
  have hmode : Fails Error.Plain (spec.merge.mapM MergeMode.read) := by
    refine .option (fun written => ?_) spec.merge
    unfold MergeMode.read
    dsimp only
    repeat' split
    · exact .ok _
    · exact .ok _
    · exact .error trivial
  have hdedupe : Fails Error.Plain (spec.dedupe.mapM Dedupe.read) := by
    refine .option (fun written => ?_) spec.dedupe
    unfold Dedupe.read
    dsimp only
    repeat' split
    · exact .ok _
    · exact .ok _
    · exact .ok _
    · exact .error trivial
  refine .bind hmode fun mode => .bind hdedupe fun dedupeBy => ?_
  split <;> exact .ok _

theorem addEntry_orderly (p : Progress) (name : String) (groups : List (List ContextValue)) (grouped : Bool)
    (spec : ComposeSpec) : Orderly (addEntry p name groups grouped spec) := by
  unfold addEntry
  split <;> refine .bind ?_ fun source => ?_
  case isTrue.refine_1 => exact .randomSource _
  case isFalse.refine_1 => exact .pure _
  all_goals
    dsimp only
    cases hmade : one source groups grouped spec with
    | error e => exact .throw ((one_fails source groups grouped spec e hmade).within _)
    | ok made => exact .pure _

theorem run_orderly (results : Table QueryResult) (specs : Table ComposeSpec) :
    Orderly (run results specs) := by
  refine .bind (.foldlM (fun _ _ => addEntry_orderly _ _ _ _ _) _ _) fun plain => ?_
  refine .bind (.foldlM (fun p e => ?_) _ _) fun all => .pure _
  split
  · exact .bind (.warnAll _) fun _ => addEntry_orderly _ _ _ _ _
  · exact .pure _

end Compose

end Bitpress
