import Bitpress.Proofs.Compose.Kept
import Bitpress.Proofs.Memo.Requests
import Bitpress.Proofs.Preset.Spelling
import Bitpress.Proofs.Preset.Yield

/-!
Presets in two spellings.

Older queries among the variables of a preset are run on their own, before the
queries that the preset is laid over. Moved to the queries, they are run together
with these. If nothing else has to do with them, they find the same, and nothing
else is found in another way (`Load.Loaded.comeAlike_respelled`).
-/

namespace Bitpress

open Outcome

namespace Legacy

variable {keep : String → Bool}

theorem queriesOf_eq {context : Table Tree} (h : context.Distinct) : queriesOf context = moved context [] := by
  rw [queriesOf, lift_eq h]
  rfl

theorem movedAt_nil (context : Table Tree) (key : String) :
    movedAt context [] key = (context.valueAt? key).map fun t => (key, t) := rfl

/-- Some of the older queries of a context. -/
theorem moved_kept (keep : String → Bool) (context : Table Tree) :
    moved (context.kept keep) [] = (moved context []).kept keep := by
  unfold moved Table.kept
  rw [List.filter_filterMap]
  refine List.filterMap_congr fun k _ => ?_
  rw [movedAt_nil, movedAt_nil, Table.valueAt?_filter context keep k]
  cases context.valueAt? k with
  | none => simp
  | some t => by_cases hk : keep k = true <;> simp [hk, Option.filter]

/-- The older queries that are moved, among all of a context with the same ones. -/
theorem dropped_moved {context declared queries : Table Tree}
    (h : context.dropped (stays declared queries) = declared.dropped (stays declared queries)) :
    (moved context []).dropped (stays declared queries) = moved declared queries := by
  unfold Table.dropped
  conv_rhs => unfold moved
  conv_lhs => rw [moved, List.filter_filterMap]
  refine List.filterMap_congr fun k hk => ?_
  by_cases hmoved : k ∈ (moved declared queries).keyList
  · have hstays : stays declared queries k = false := by rw [stays, Table.hasKey_eq_true.mpr hmoved, Bool.not_true]
    have hvalue : context.valueAt? k = declared.valueAt? k := by
      rw [← Table.valueAt?_dropped hstays, h, Table.valueAt?_dropped hstays]
    rw [movedAt_nil, hvalue, movedAt, Table.hasKey_eq_false.mpr (mem_keyList_moved.mp hmoved).2.1]
    cases declared.valueAt? k <;> simp [hstays, Option.filter]
  · have hstays : stays declared queries k = true := by rw [stays, Table.hasKey_eq_false.mpr hmoved, Bool.not_false]
    have hnone : movedAt declared queries k = none := by
      refine Option.eq_none_iff_forall_ne_some.mpr fun e he => hmoved ?_
      obtain ⟨rfl, hqueries, hvalue⟩ := exists_of_movedAt he
      exact mem_keyList_moved.mpr ⟨hk, hqueries, List.mem_map_of_mem (Table.mem_of_valueAt? hvalue)⟩
    rw [hnone, movedAt_nil]
    cases context.valueAt? k <;> simp [hstays, Option.filter]

end Legacy

namespace Load.Loaded

open Store

variable {l : Library} {count : Nat} {t : Store} {p : Location} {trail : List PresetKey} {b : Bit} {keep : String → Bool}
  {queries compose : Table Tree} {out : Context}

/-! ### More queries -/

section Answers
variable (ask : String × Tree → Build QueryResult) (found : Table QueryResult)

theorem answers_kept (queries : Table Tree) :
    (t.answers trail ask queries found).kept keep = t.answers trail ask (queries.kept keep) (found.kept keep) := by
  induction queries generalizing found with
  | nil => rfl
  | cons e rest ih =>
    refine (ih (found.put e.1 (t.answer trail ask e))).trans ?_
    unfold Table.kept at *
    rw [List.filter_cons]
    by_cases hkeep : keep e.1 = true
    · rw [if_pos hkeep, Table.filter_put_of_pos found hkeep]
      rfl
    · rw [if_neg hkeep, Table.filter_put_of_neg found (Bool.eq_false_iff.mpr hkeep)]

theorem answers_kept_nil (queries : Table Tree) :
    (t.answers trail ask queries []).kept keep = t.answers trail ask (queries.kept keep) [] :=
  answers_kept ask [] queries

theorem answers_dropped (queries : Table Tree) :
    (t.answers trail ask queries found).dropped keep = t.answers trail ask (queries.dropped keep) (found.dropped keep) :=
  (answers_kept ask found queries : Table.kept _ (fun k => !keep k) = _)

end Answers

section Loaded
variable (h : Loaded l count t p) {overlay : Bit → Option PresetSelector → Build Context}
  (hoverlay : ∀ b sel, Known (t.own .bits p) t b → Still t p trail (overlay b sel))
  (hspares : ∀ specs, ComposeSpec.readTable compose = .ok specs → Compose.Spares keep specs)

include h hoverlay hspares

/-- Queries that the compose map has nothing to do with are run besides the others. -/
theorem yields_run_kept : (∃ all, t.Yields trail ((t.resolver l p).run overlay queries compose) all ∧ all.kept keep = out) ↔
    t.Yields trail ((t.resolver l p).run overlay (queries.kept keep) compose) out ∧
      ∀ e ∈ queries.dropped keep, t.Answered trail ((t.resolver l p).asked overlay) e := by
  have hcomposed : ∀ specs, ComposeSpec.readTable compose = .ok specs →
      (t.Yields trail (Build.press (Compose.run (t.answers trail ((t.resolver l p).asked overlay) (queries.kept keep) [])
        specs)) out ↔ ∃ all, t.Yields trail (Build.press (Compose.run
          (t.answers trail ((t.resolver l p).asked overlay) queries []) specs)) all ∧ all.kept keep = out) := by
    intro specs hspecs
    rw [← answers_kept_nil, Compose.run_kept (hspares specs hspecs), h.yields_press_map (Compose.run_steady _ specs)]
  rw [h.yields_run hoverlay]
  simp only [h.yields_run hoverlay]
  constructor
  · rintro ⟨all, ⟨hanswered, specs, hspecs, hyields⟩, hall⟩
    refine ⟨⟨fun e he => hanswered e (List.mem_filter.mp he).1, specs, hspecs, ?_⟩,
      fun e he => hanswered e (List.mem_filter.mp he).1⟩
    exact (hcomposed specs hspecs).mpr ⟨all, hyields, hall⟩
  · rintro ⟨⟨hkept, specs, hspecs, hyields⟩, hdropped⟩
    obtain ⟨all, hyields, hall⟩ := (hcomposed specs hspecs).mp hyields
    refine ⟨all, ⟨fun e he => ?_, specs, hspecs, hyields⟩, hall⟩
    by_cases hkeep : keep e.1 = true
    · exact hkept e (List.mem_filter.mpr ⟨he, hkeep⟩)
    · exact hdropped e (List.mem_filter.mpr ⟨he, by simpa using hkeep⟩)

/-- What these find is composed plainly. -/
theorem dropped_of_yields_run (hyields : t.Yields trail ((t.resolver l p).run overlay queries compose) out) :
    out.dropped keep =
      Compose.plainly (t.answers trail ((t.resolver l p).asked overlay) (queries.dropped keep) []) [] := by
  obtain ⟨-, specs, hspecs, hyields⟩ := (h.yields_run hoverlay queries compose out).mp hyields
  obtain ⟨_, heffect, -⟩ := hyields _ (quiet_start t trail)
  rw [Compose.dropped_of_run (hspares specs hspecs) (Build.effect_of_press_eq_ok heffect), answers_dropped]
  rfl

end Loaded

theorem listed_of_yields_run {overlay : Bit → Option PresetSelector → Build Context}
    (h : t.Yields trail ((t.resolver l p).run overlay queries compose) out) : out.Listed := by
  obtain ⟨_, heffect, -⟩ := h _ (quiet_start t trail)
  exact Resolver.run_listed heffect

end Load.Loaded

/-! ### Variables -/

namespace Context

variable {keep : String → Bool} {static found queried : Context}

theorem keyList_ofTable (entries : Table Tree) : Table.keyList (ofTable entries) = entries.keyList := by
  unfold ofTable
  induction entries with
  | nil => rfl
  | cons e rest ih => exact congrArg (e.1 :: ·) ih

/-- What is found under some names may be laid over other variables before or after what is found under the others. -/
theorem same_merge (hstatic : Table.Distinct static) (hfound : Table.Distinct found) (hqueried : Table.Distinct queried)
    (h : Table.dropped found keep = Table.dropped queried keep) :
    Table.Same ((static.merge found).merge (Table.kept queried keep))
      ((static.merge (Table.kept found keep)).merge queried) := by
  have hfound' : Table.Distinct (Table.kept found keep) := hfound.filter _
  have hqueried' : Table.Distinct (Table.kept queried keep) := hqueried.filter _
  unfold merge
  simp only [ContextValue.overlayEntries_eq]
  refine ⟨(hstatic.mergeWith _).mergeWith _, (hstatic.mergeWith _).mergeWith _, fun k => ?_⟩
  rw [Table.valueAt?_mergeWith hqueried', Table.valueAt?_mergeWith hfound, Table.valueAt?_mergeWith hqueried,
    Table.valueAt?_mergeWith hfound']
  cases hk : keep k with
  | true => rw [Table.valueAt?_kept hk, Table.valueAt?_kept hk]
  | false =>
    have hsame : Table.valueAt? found k = Table.valueAt? queried k := by
      rw [← Table.valueAt?_dropped hk, h, Table.valueAt?_dropped hk]
    rw [Table.valueAt?_kept_of_dropped hk, Table.valueAt?_kept_of_dropped hk, Option.merge_none_right,
      Option.merge_none_right, hsame]

end Context

/-! ### Two spellings of a preset -/

/-- Two steps come to the same variables, in whatever order, or neither of them comes to any. -/
def Store.YieldAlike (t : Store) (trail : List PresetKey) (x x' : Build Context) : Prop :=
  (∀ v, t.Yields trail x v → ∃ v', t.Yields trail x' v' ∧ Table.Same v v') ∧
    ∀ v', t.Yields trail x' v' → ∃ v, t.Yields trail x v ∧ Table.Same v v'

namespace Resolver

variable {r : Resolver} {overlay : Bit → Option PresetSelector → Build Context}

/-- The variables of a preset from its parts. -/
def ofParts (r : Resolver) (overlay : Bit → Option PresetSelector → Build Context) (context queries compose : Table Tree) :
    Build Context := do
  let own ← variablesOf (r.run overlay) context
  return own.merge (← r.run overlay queries compose)

theorem ofPreset_eq (b : Bit) (e : PresetDecl) : r.ofPreset overlay b e = (do
    let tree ← Build.ofOutcome (e.tree b)
    r.ofParts overlay (partOf tree "context") (partOf tree "queries") (partOf tree "compose")) := rfl

theorem partOf_eq {spec entries : Table Tree} {part : String} (h : spec.valueAt? part = some (.map entries)) :
    partOf (.map spec) part = entries := by
  show ((spec.valueAt? part).bind Tree.table?).getD [] = entries
  rw [h]
  rfl

end Resolver

theorem PresetDecl.stays_of_not_mem {e : PresetDecl} {k : String} (h : k ∉ Legacy.keys) : e.stays k = true :=
  Bool.not_eq_false _ ▸ mt stays_eq_false.mp fun hk => h (Legacy.mem_keyList_moved.mp hk).1

namespace Load.Loaded

open Store

variable {l : Library} {count : Nat} {t : Store} {p : Location} {trail trail' : List PresetKey} {b : Bit} {keep : String → Bool}
  {x x' : Build Context}

theorem alike_within (context : String) (h : t.YieldAlike trail x x') :
    t.YieldAlike trail (Build.within context x) (Build.within context x') := by
  unfold YieldAlike
  simp only [yields_within]
  exact h

theorem alike_visiting {key : PresetKey} (henter : Resolver.enter trail key = .ok trail') (hx : Still t p trail' x)
    (hx' : Still t p trail' x') (h : t.YieldAlike trail' x x') :
    t.YieldAlike trail (Resolver.visiting key x) (Resolver.visiting key x') := by
  unfold YieldAlike
  simp only [yields_visiting henter hx, yields_visiting henter hx']
  exact h

section Loaded
variable (h : Loaded l count t p) {overlay : Bit → Option PresetSelector → Build Context}
  (hoverlay : ∀ b sel, Known (t.own .bits p) t b → Still t p trail (overlay b sel))

include h hoverlay

theorem still_ofParts (context queries compose : Table Tree) :
    Still t p trail ((t.resolver l p).ofParts overlay context queries compose) := by
  unfold Resolver.ofParts
  rw [Resolver.variablesOf_eq]
  exact .bind (.bind (h.still_run hoverlay _ _) fun _ => .pure _) fun _ =>
    .bind (h.still_run hoverlay _ _) fun _ => .pure _

theorem yields_ofParts (context queries compose : Table Tree) (v : Context) :
    t.Yields trail ((t.resolver l p).ofParts overlay context queries compose) v ↔
      ∃ found, t.Yields trail ((t.resolver l p).run overlay (Legacy.queriesOf context) []) found ∧
        ∃ queried, t.Yields trail ((t.resolver l p).run overlay queries compose) queried ∧
          ((Context.ofTable (Legacy.lift context []).context).merge found).merge queried = v := by
  have hrun := h.still_run hoverlay
  unfold Resolver.ofParts
  rw [Resolver.variablesOf_eq, yields_bind (.bind (hrun _ _) fun _ => .pure _) fun _ => .bind (hrun _ _) fun _ => .pure _]
  simp only [yields_bind (hrun _ _) fun _ => Still.pure _, yields_pure]
  constructor
  · rintro ⟨_, ⟨found, hfound, rfl⟩, hqueried⟩
    exact ⟨found, hfound, hqueried⟩
  · rintro ⟨found, hfound, hqueried⟩
    exact ⟨_, ⟨found, hfound, rfl⟩, hqueried⟩

/-- Older queries are run on their own, or together with other queries. -/
theorem alike_ofParts {context queries compose : Table Tree} (hcontext : context.Distinct)
    (hkeys : ∀ k, k ∉ Legacy.keys → keep k = true) (hmoved : (Legacy.moved context []).dropped keep = queries.dropped keep)
    (hspares : ∀ specs, ComposeSpec.readTable compose = .ok specs → Compose.Spares keep specs) :
    t.YieldAlike trail ((t.resolver l p).ofParts overlay context (queries.kept keep) compose)
      ((t.resolver l p).ofParts overlay (context.kept keep) queries compose) := by
  have hkept : (context.kept keep).Distinct := hcontext.filter _
  have holder : Legacy.queriesOf (context.kept keep) = (Legacy.queriesOf context).kept keep := by
    rw [Legacy.queriesOf_eq hkept, Legacy.queriesOf_eq hcontext, Legacy.moved_kept]
  have hstatic : (Legacy.lift (context.kept keep) []).context = (Legacy.lift context []).context := by
    rw [Legacy.lift_eq hkept, Legacy.lift_eq hcontext]
    unfold Table.kept
    rw [List.filter_filter]
    refine List.filter_congr fun e _ => ?_
    by_cases hk : e.1 ∈ Legacy.keys
    · simp [hk]
    · simp [hk, hkeys e.1 hk]
  have hdistinct : Table.Distinct (Context.ofTable (Legacy.lift context []).context) := by
    unfold Table.Distinct
    rw [Context.keyList_ofTable, Legacy.lift_eq hcontext]
    exact hcontext.filter _
  rw [← Legacy.queriesOf_eq hcontext] at hmoved
  -- Both runs come to the same for what is moved, as nothing shapes it.
  have hnone : ∀ specs, ComposeSpec.readTable [] = .ok specs → Compose.Spares keep specs := fun specs hspecs => by
    cases hspecs
    exact fun _ he => by cases he
  have hsame : ∀ found queried, t.Yields trail ((t.resolver l p).run overlay (Legacy.queriesOf context) []) found →
      t.Yields trail ((t.resolver l p).run overlay queries compose) queried →
      Table.Same (((Context.ofTable (Legacy.lift context []).context).merge found).merge (Table.kept queried keep))
        (((Context.ofTable (Legacy.lift context []).context).merge (Table.kept found keep)).merge queried) := by
    intro found queried hfound hqueried
    refine Context.same_merge hdistinct (listed_of_yields_run hfound).1 (listed_of_yields_run hqueried).1 ?_
    rw [h.dropped_of_yields_run hoverlay hnone hfound, h.dropped_of_yields_run hoverlay hspares hqueried, hmoved]
  unfold YieldAlike
  simp only [h.yields_ofParts hoverlay, holder, hstatic]
  constructor
  · rintro _ ⟨found, hfound, queried, hqueried, rfl⟩
    obtain ⟨hfound', hanswered⟩ := (h.yields_run_kept hoverlay hnone).mp ⟨found, hfound, rfl⟩
    obtain ⟨queried, hqueried', rfl⟩ := (h.yields_run_kept hoverlay hspares).mpr ⟨hqueried, hmoved ▸ hanswered⟩
    exact ⟨_, ⟨_, hfound', queried, hqueried', rfl⟩, hsame found queried hfound hqueried'⟩
  · rintro _ ⟨found, hfound, queried, hqueried, rfl⟩
    obtain ⟨hqueried', hanswered⟩ := (h.yields_run_kept hoverlay hspares).mp ⟨queried, hqueried, rfl⟩
    obtain ⟨found, hfound', rfl⟩ := (h.yields_run_kept hoverlay hnone).mpr ⟨hfound, hmoved ▸ hanswered⟩
    exact ⟨_, ⟨found, hfound', _, hqueried', rfl⟩, hsame found queried hfound' hqueried⟩

theorem still_ofPreset (b : Bit) (e : PresetDecl) : Still t p trail ((t.resolver l p).ofPreset overlay b e) :=
  .bind (still_ofOutcome _) fun _ => h.still_ofParts hoverlay _ _ _

theorem yields_ofPreset (b : Bit) (e : PresetDecl) (v : Context) :
    t.Yields trail ((t.resolver l p).ofPreset overlay b e) v ↔ ∃ tree, e.tree b = .ok tree ∧
      t.Yields trail ((t.resolver l p).ofParts overlay (Resolver.partOf tree "context") (Resolver.partOf tree "queries")
        (Resolver.partOf tree "compose")) v := by
  rw [Resolver.ofPreset_eq, yields_bind (still_ofOutcome _) fun _ => h.still_ofParts hoverlay _ _ _]
  simp only [yields_ofOutcome]

/-- A preset comes to the same in both spellings if nothing else has to do with the older queries that are moved. -/
theorem alike_ofPreset {e : PresetDecl} (hcontext : e.context.Distinct) (hapart : e.Apart b) :
    t.YieldAlike trail ((t.resolver l p).ofPreset overlay b e) ((t.resolver l p).ofPreset overlay b e.respelled) := by
  unfold YieldAlike
  simp only [h.yields_ofPreset hoverlay]
  rcases PresetDecl.tree_respelled hcontext hapart with ⟨_, _, hfails, hfails'⟩ | ⟨spec, spec', hspec, hspec', hspelled⟩
  · constructor
    · rintro _ ⟨tree, htree, -⟩
      cases hfails.symm.trans htree
    · rintro _ ⟨tree, htree, -⟩
      cases hfails'.symm.trans htree
  obtain ⟨context, hdistinct, holder, hpart, hpart'⟩ := hspelled.context
  obtain ⟨queries, hmoved, hqueries, hqueries'⟩ := hspelled.queries
  have hcompose : Resolver.partOf (.map spec') "compose" = Resolver.partOf (.map spec) "compose" :=
    congrArg (fun part => (part.bind Tree.table?).getD []) (hspelled.others "compose" (by decide)).symm
  have halike := h.alike_ofParts hoverlay hdistinct (fun _ => PresetDecl.stays_of_not_mem)
    ((Legacy.dropped_moved holder).trans hmoved.symm) (hapart.compose _ · hspec)
  rw [hspec, hspec']
  simp only [Except.ok.injEq, exists_eq_left', Resolver.partOf_eq hpart, Resolver.partOf_eq hpart',
    Resolver.partOf_eq hqueries, Resolver.partOf_eq hqueries', hcompose]
  exact halike

end Loaded

end Load.Loaded

/-! ### Chosen presets -/

namespace Store

/-- A preset of a bit, resolved in a registry when all is loaded, comes to variables without an unseeded choice. -/
def ComesTo (t : Store) (l : Library) (p : Location) (b : Bit) (choice : PresetChoice) (v : Context) : Prop :=
  ∃ u, effect ((t.resolver l p).ofChoice ((t.resolver l p).presets + 1) b choice) { store := t } = (.ok v, u) ∧
    u.store.session.choices = t.session.choices

/-- Two presets of a bit come to the same variables, in whatever order, or neither of them comes to any. -/
def ComeAlike (t : Store) (l : Library) (p : Location) (b : Bit) (choice choice' : PresetChoice) : Prop :=
  (∀ v, t.ComesTo l p b choice v → ∃ v', t.ComesTo l p b choice' v' ∧ Table.Same v v') ∧
    ∀ v', t.ComesTo l p b choice' v' → ∃ v, t.ComesTo l p b choice v ∧ Table.Same v v'

end Store

namespace Load.Loaded

open Store

variable {l : Library} {count : Nat} {t : Store} {p : Location} {b : Bit}

theorem comesTo_iff (h : Loaded l count t p) (hb : Known (t.own .bits p) t b) (choice : PresetChoice) (v : Context) :
    t.ComesTo l p b choice v ↔
      t.Yields [] ((t.resolver l p).ofChoice ((t.resolver l p).presets + 1) b choice) v := by
  constructor
  · rintro ⟨u, heffect, hchoices⟩
    exact ((h.still_ofChoice _ choice hb).yields (quiet_start t []) heffect (Nat.le_of_eq hchoices)).1
  · intro hyields
    obtain ⟨u, heffect, hu⟩ := hyields _ (quiet_start t [])
    exact ⟨u, heffect, hu.choices⟩

theorem comeAlike_respelled (h : Loaded l count t p) (hb : b ∈ t.items .bits p) (place : Nat) {e : PresetDecl}
    (hcontext : e.context.Distinct) (hapart : e.Apart b) :
    t.ComeAlike l p b (.declared place e) (.declared place e.respelled) := by
  have hknown := h.known h.current hb
  have hoverlay : ∀ trail b sel, Known (t.own .bits p) t b →
      Still t p trail (Resolver.overlayBy ((t.resolver l p).ofChoice (t.resolver l p).presets) b sel) :=
    fun _ _ _ hb => h.still_overlayBy fun choice => h.still_ofChoice _ choice hb
  have henter : ∀ key, Resolver.enter [] key = .ok [key] := fun _ => rfl
  unfold ComeAlike
  simp only [h.comesTo_iff hknown]
  exact alike_within _ (alike_visiting (henter _) (h.still_ofPreset (hoverlay _) b e)
    (h.still_ofPreset (hoverlay _) b e.respelled) (h.alike_ofPreset (hoverlay _) hcontext hapart))

end Load.Loaded

end Bitpress
