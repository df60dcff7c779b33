import Bitpress.Proofs.History.Store
import Bitpress.Resolution

/-!
Two builds that resolve the same queries.

The resolvers see the same elements under different identities
(`Runs.Resolvers`). A query finds the same in both, and resolving it changes the
stores alike.
-/

namespace Bitpress

open Likeness

variable {R : Runs} {held : List Location} {C : Prop}

namespace Runs

/-- Resolvers of the two runs. The first run has made all bits that its resolver holds. -/
structure Resolvers (R : Runs) (held : List Location) (C : Prop) (r r' : Resolver) : Prop where
  library : r'.library = r.library
  path : r'.path = r.path
  bits : r'.bits = r.bits.map (Bit.rename R.rename)
  good : C → ∀ b ∈ r.bits.items, R.bits.good b
  constants : r'.constants = r.constants.map (Constant.rename R.rename)
  presets : r'.presets = r.presets
  depend : ∀ p, (R.buildings held).Alike C (r.depend p) (r'.depend p) R.contents

theorem Resolvers.given {D : Prop} {r r' : Resolver} (hr : R.Resolvers held C r r') (hD : D → C) :
    R.Resolvers held D r r' :=
  { hr with good := fun d => hr.good (hD d), depend := fun p => (hr.depend p).given hD }

def blocks (R : Runs) : Tie Block Block := ⟨Block.rename R.rename, fun _ => True⟩

def result (R : Runs) : Tie QueryResult QueryResult := ⟨QueryResult.rename R.rename, fun _ => True⟩

def values (R : Runs) : Tie ContextValue ContextValue := ⟨ContextValue.rename R.rename, fun _ => True⟩

/-- The steps that resolve the presets of bits. -/
def Overlays (R : Runs) (held : List Location) (C : Prop)
    (overlay overlay' : Bit → Option PresetSelector → Build Context) : Prop :=
  ∀ b s, (R.buildings held).Alike (C ∧ R.bits.good b) (overlay b s) (overlay' (b.rename R.rename) s) R.contexts

/-- The steps that run queries. -/
def Runners (R : Runs) (held : List Location) (C : Prop) (run run' : Table Tree → Table Tree → Build Context) :
    Prop :=
  ∀ q c, (R.buildings held).Alike (C ∧ q.AllTexts R.Fixed) (run q c) (run' q c) R.contexts

end Runs

namespace Resolver

open Runs

variable {r r' : Resolver} {overlay overlay' : Bit → Option PresetSelector → Build Context}
  {run run' : Table Tree → Table Tree → Build Context}

theorem contentsFor_alike (hr : R.Resolvers held C r r') (reference : Option String) :
    (R.buildings held).Alike C (r.contentsFor reference) (r'.contentsFor reference) R.contents.option := by
  cases reference with
  | none => exact .pure rfl fun _ _ h => (by cases h)
  | some reference =>
    unfold contentsFor
    dsimp only
    rw [hr.library, hr.path]
    refine same_bind _ fun p _ => ?_
    split
    · exact .pure rfl fun _ _ h => (by cases h)
    · refine .bind (hr.depend p) fun c => .pure rfl fun h found he => ?_
      cases he
      exact h.2

/-- A query searches the same collection in both runs: that of another registry, or the resolver's own. -/
theorem searched_map {α : Type} {part : Contents → Collection α} {f : ElementId → ElementId} {h : α → α}
    (hpart : ∀ c : Contents, part (c.rename f) = (part c).map h) {own own' : Collection α} (hown : own' = own.map h)
    (contents : Option Contents) :
    ((contents.map (Contents.rename f)).map part).getD own' = ((contents.map part).getD own).map h := by
  cases contents with
  | none => exact hown
  | some c => exact hpart c

theorem constantsOf_alike (hr : R.Resolvers held C r r') (q : QuerySpec) (hq : C → q.AllTexts R.Fixed) :
    (R.buildings held).Alike C (r.constantsOf q) (r'.constantsOf q) R.constants.list := by
  refine .bind (contentsFor_alike hr q.registry) fun contents => ?_
  have hsearched : ((R.contents.option.image contents).map Contents.constants).getD r'.constants =
      ((contents.map Contents.constants).getD r.constants).map (Constant.rename R.rename) :=
    searched_map (fun _ => rfl) hr.constants contents
  rw [hsearched]
  refine (press_alike (matching_alike (Constant.renames R.rename) _ q fun h => hq h.1)).imp ?_
  exact fun _ _ _ _ _ => trivial

theorem variablesOf_alike (hrun : R.Runners held C run run') (t : Table Tree) (ht : C → t.AllTexts R.Fixed) :
    (R.buildings held).Alike C (variablesOf run t) (variablesOf run' t) R.contexts := by
  have hlifted := fun c => (Legacy.lift_allTexts (ht c) Table.AllTexts.nil).2
  unfold variablesOf
  dsimp only
  split
  · exact .pure (Context.rename_ofTable R.rename _).symm fun _ => trivial
  · refine .bind ((hrun _ []).given fun c => ⟨c, hlifted c⟩) fun found => .pure ?_ fun _ => trivial
    show Context.merge _ (found.rename R.rename) = Context.rename R.rename _
    rw [Context.rename_merge, Context.rename_ofTable]

/-- Bits that the first run has made are bound to the same contexts in both. -/
theorem boundTo_alike (hoverlay : R.Overlays held C overlay overlay') {D : Prop} {found : List Bit}
    (hfound : D → C ∧ ∀ b ∈ found, R.bits.good b) (q : QuerySpec) (ofQuery : Context) (ofClause : Context × Context) :
    (R.buildings held).Alike D
      (found.mapM fun b => do
        let ofPreset ← overlay b q.preset
        return (⟨b, ((Context.merge ofPreset ofQuery).merge ofClause.1).merge ofClause.2, q.metadata⟩ : Block))
      ((found.map (Bit.rename R.rename)).mapM fun b => do
        let ofPreset ← overlay' b q.preset
        return (⟨b, ((Context.merge ofPreset (ofQuery.rename R.rename)).merge
          (ofClause.1.rename R.rename)).merge (ofClause.2.rename R.rename), q.metadata⟩ : Block))
      R.blocks.list := by
  refine .mapM fun b hb => ?_
  refine .bind ((hoverlay b q.preset).given fun h => ⟨(hfound h).1, (hfound h).2 b hb⟩) fun ofPreset => ?_
  refine .pure ?_ fun _ => trivial
  show (⟨b.rename R.rename, _, q.metadata⟩ : Block) = Block.rename R.rename _
  unfold Block.rename
  rw [Context.rename_merge, Context.rename_merge, Context.rename_merge]
  rfl

/-- The bits that the first run finds are ones that it has made. -/
theorem blocksOf_alike (hr : R.Resolvers held C r r') (hoverlay : R.Overlays held C overlay overlay')
    (hrun : R.Runners held C run run') (q : QuerySpec) (hq : C → q.AllTexts R.Fixed) :
    (R.buildings held).Alike C (r.blocksOf overlay run q) (r'.blocksOf overlay' run' q) R.blocks.list := by
  refine .bind (contentsFor_alike hr q.registry) fun contents => ?_
  have hsearched : ((R.contents.option.image contents).map Contents.bits).getD r'.bits =
      ((contents.map Contents.bits).getD r.bits).map (Bit.rename R.rename) :=
    searched_map (fun _ => rfl) hr.bits contents
  have hgood : C ∧ R.contents.option.good contents →
      ∀ b ∈ ((contents.map Contents.bits).getD r.bits).items, R.bits.good b := by
    intro h
    cases contents with
    | none => exact hr.good h.1
    | some c => exact (h.2 c rfl).bits
  rw [hsearched]
  have hpressed : (R.buildings held).Alike (C ∧ R.contents.option.good contents)
      (Build.press (Query.matching ((contents.map Contents.bits).getD r.bits) q))
      (Build.press (Query.matching (((contents.map Contents.bits).getD r.bits).map (Bit.rename R.rename)) q)) _ :=
    press_alike (matching_alike (Bit.renames R.rename) _ q fun h => hq h.1)
  have hfound := hpressed.imp (Q := fun found => ∀ b ∈ found, R.bits.good b) fun c found hsub b hb =>
    hgood c b (hsub b hb)
  refine .bind hfound fun found => ?_
  have hempty : (found.map (Bit.rename R.rename)).isEmpty = found.isEmpty := List.isEmpty_map
  dsimp only
  rw [hempty]
  split
  · exact .pure rfl fun _ _ h => (by cases h)
  · refine .bind (variablesOf_alike (fun q c => (hrun q c).given fun h => ⟨h.1.1.1, h.2⟩) q.context fun h =>
      (hq h.1.1).context) fun ofQuery => ?_
    cases hwith : q.with with
    | none =>
      refine .bind (R := R.contexts.pair R.contexts) (.pure rfl fun _ => ⟨trivial, trivial⟩) fun clause => ?_
      exact boundTo_alike hoverlay (fun h => ⟨h.1.1.1.1, h.1.1.2⟩) q ofQuery clause
    | some w =>
      refine .bind (variablesOf_alike (fun q c => (hrun q c).given fun h => ⟨h.1.1.1.1, h.2⟩) w.context fun h =>
        ((hq h.1.1.1).with w hwith).context) fun context => ?_
      refine .bind ((hrun w.queries []).given fun h =>
        ⟨h.1.1.1.1, ((hq h.1.1.1.1).with w hwith).queries⟩) fun found => ?_
      refine .bind (R := R.contexts.pair R.contexts) (.pure rfl fun _ => ⟨trivial, trivial⟩) fun clause => ?_
      exact boundTo_alike hoverlay (fun h => ⟨h.1.1.1.1.1.1, h.1.1.1.1.2⟩) q ofQuery clause

theorem resultOf_alike (hr : R.Resolvers held C r r') (hoverlay : R.Overlays held C overlay overlay')
    (hrun : R.Runners held C run run') (name : String) (t : Tree) (ht : C → t.AllTexts R.Fixed) :
    (R.buildings held).Alike C (r.resultOf overlay run name t) (r'.resultOf overlay' run' name t) R.result := by
  refine same_bind _ fun entry hentry => ?_
  have hspecs : C → ∀ q ∈ entry.specs, q.AllTexts R.Fixed := fun c => QueryEntry.read_allTexts (ht c) hentry
  refine .bind (R := R.values.list.list) (.mapM_same fun q hq => ?_) fun groups => .pure ?_ fun _ => trivial
  · split
    · refine .bind (blocksOf_alike hr hoverlay hrun q fun c => hspecs c q hq) fun blocks => ?_
      refine .pure ?_ fun _ _ _ => trivial
      show (blocks.map (Block.rename R.rename)).map Block.toValue = (blocks.map Block.toValue).map _
      rw [List.map_map, List.map_map]
      rfl
    · refine .bind (constantsOf_alike hr q fun c => hspecs c q hq) fun constants => ?_
      refine .pure ?_ fun _ _ _ => trivial
      show (constants.map (Constant.rename R.rename)).map ContextValue.constant =
        (constants.map ContextValue.constant).map _
      rw [List.map_map, List.map_map]
      rfl
  · show _ = QueryResult.rename R.rename _
    split
    · rfl
    · unfold QueryResult.rename
      dsimp only
      show _ = QueryResult.single ((groups.head?.getD []).map _)
      cases groups <;> rfl

/-- Queries inside of queries are part of them, so their texts are known as well. -/
theorem runNested_alike (hr : R.Resolvers held C r r') (hoverlay : R.Overlays held C overlay overlay') (depth : Nat) :
    R.Runners held C (r.runNested overlay depth) (r'.runNested overlay' depth) := by
  induction depth with
  | zero => exact fun _ _ => .throw _ _
  | succ depth ih =>
    intro queries compose
    have hentry : ∀ e ∈ queries, ∀ results : Table QueryResult, (R.buildings held).Alike
        ((C ∧ queries.AllTexts R.Fixed) ∧ R.results.good results)
        (do
          let result ← Build.within ("could not resolve query \u0060" ++ e.1 ++ "\u0060")
            (r.resultOf overlay (r.runNested overlay depth) e.1 e.2)
          return results.put e.1 result)
        (do
          let result ← Build.within ("could not resolve query \u0060" ++ e.1 ++ "\u0060")
            (r'.resultOf overlay' (r'.runNested overlay' depth) e.1 e.2)
          return (R.results.image results).put e.1 result) R.results := by
      intro e he results
      refine .bind (within_alike _ _ (resultOf_alike (hr.given fun h => h.1.1) (fun b s => ?_) (fun q c => ?_) e.1 e.2
        fun h => h.1.2 e he)) fun result => .pure ?_ fun _ => trivial
      · exact (hoverlay b s).given fun h => ⟨h.1.1.1, h.2⟩
      · exact (ih q c).given fun h => ⟨h.1.1.1, h.2⟩
      · exact (Table.mapValues_put _ results e.1 result).symm
    refine .bind (R := R.results) (Alike.foldlM_same (R := R.results) (a := []) ?_ fun _ => trivial) fun results => ?_
    · exact hentry
    have hempty : (R.results.image results).isEmpty = results.isEmpty := List.isEmpty_map
    rw [hempty]
    split
    · exact .pure rfl fun _ => trivial
    · exact same_bind _ fun specs _ => press_alike (run_alike results specs)

theorem run_alike (hr : R.Resolvers held C r r') (hoverlay : R.Overlays held C overlay overlay') :
    R.Runners held C (r.run overlay) (r'.run overlay') := fun queries compose =>
  runNested_alike hr hoverlay _ queries compose

theorem ofDefaults_alike (hr : R.Resolvers held C r r') (hoverlay : R.Overlays held C overlay overlay') {b : Bit}
    (hb : C → R.bits.good b) :
    (R.buildings held).Alike C (r.ofDefaults overlay b) (r'.ofDefaults overlay' (b.rename R.rename)) R.contexts := by
  refine .bind ((run_alike hr hoverlay b.defaults.queries b.defaults.compose).given fun c =>
    ⟨c, (hb c).2.defaults.queries⟩) fun found => .pure ?_ fun _ => trivial
  show Context.merge _ (found.rename R.rename) = Context.rename R.rename _
  rw [Context.rename_merge, Context.rename_ofTable]
  rfl

/-- A preset is laid over the same defaults. -/
theorem tree_rename (f : ElementId → ElementId) (b : Bit) (p : PresetDecl) :
    Outcome.Mirrors id (p.tree b) (p.tree (b.rename f)) := by
  unfold PresetDecl.tree
  refine .bind (.same (p.laidOver .queries b.defaults.queries p.queries)) fun queries _ => ?_
  refine .bind (.same (p.laidOver .compose b.defaults.compose p.compose)) fun compose _ => ?_
  by_cases hnone : (!p.overrides.isEmpty && queries.isEmpty) = true
  · have hnone' : (!p.overrides.isEmpty && (id queries).isEmpty) = true := hnone
    rw [if_pos hnone, if_pos hnone']
    exact .error _ _
  · have hnone' : ¬ (!p.overrides.isEmpty && (id queries).isEmpty) = true := hnone
    rw [if_neg hnone, if_neg hnone']
    exact .same _

theorem ofPreset_alike (hr : R.Resolvers held C r r') (hoverlay : R.Overlays held C overlay overlay') {b : Bit}
    (hb : C → R.bits.good b) {p : PresetDecl} (hp : C → p.AllTexts R.Fixed) :
    (R.buildings held).Alike C (r.ofPreset overlay b p) (r'.ofPreset overlay' (b.rename R.rename) p) R.contexts := by
  refine mirrors_bind (tree_rename R.rename b p) fun tree htree => ?_
  have hparts : C → ∀ part, (partOf tree part).AllTexts R.Fixed := fun c part =>
    Table.AllTexts.ofPart (PresetDecl.tree_allTexts (hb c).2 (hp c) htree) part
  refine .bind (variablesOf_alike (run_alike hr hoverlay) (partOf tree "context") fun c => hparts c _) fun context => ?_
  refine .bind ((run_alike hr hoverlay (partOf tree "queries") (partOf tree "compose")).given fun h =>
    ⟨h.1, hparts h.1 _⟩) fun found => .pure ?_ fun _ => trivial
  exact (Context.rename_merge R.rename context found).symm

/-- A preset is on the trail of both runs or of neither. -/
theorem enter_alike {trail trail' : List PresetKey} {key key' : PresetKey} (htrail : R.Trails trail trail')
    (hkey : R.Trails [key] [key']) :
    (∃ e e', enter trail key = .error e ∧ enter trail' key' = .error e') ∨
      ∃ entered entered', enter trail key = .ok entered ∧ enter trail' key' = .ok entered' ∧
        R.Trails entered entered' := by
  obtain ⟨hbit, hpreset⟩ : key'.bit = R.rename key.bit ∧ key'.preset = key.preset := by
    unfold Trails at hkey
    simpa using hkey
  have hsame : trail'.findIdx? (fun k => k.same key') = trail.findIdx? (fun k => k.same key) := by
    let asked : ElementId × Option Nat → Bool := fun e => e.1 == key'.bit && e.2 == key'.preset
    calc trail'.findIdx? (fun k => k.same key')
        = (trail'.map fun k => (k.bit, k.preset)).findIdx? asked := by
          rw [List.findIdx?_map]
          rfl
      _ = (trail.map fun k => (R.rename k.bit, k.preset)).findIdx? asked := by rw [htrail]
      _ = trail.findIdx? (fun k => k.same key) := by
        rw [List.findIdx?_map]
        refine congrArg (List.findIdx? · trail) (funext fun k => ?_)
        show (R.rename k.bit == key'.bit && k.preset == key'.preset) = (k.bit == key.bit && k.preset == key.preset)
        rw [hbit, hpreset, Bool.eq_iff_iff]
        simp [R.rename_injective.eq_iff]
  unfold enter
  rw [hsame]
  cases trail.findIdx? (fun k => k.same key) with
  | some i => exact .inl ⟨_, _, rfl, rfl⟩
  | none =>
    refine .inr ⟨_, _, rfl, rfl, ?_⟩
    unfold Trails
    rw [List.map_append, List.map_append, htrail, hkey]

theorem trails_keyOf (R : Runs) (b : Bit) (choice : PresetChoice) :
    R.Trails [keyOf b choice] [keyOf (b.rename R.rename) choice] := by
  cases choice <;> rfl

/-- Two steps with the same preset on the trail. -/
theorem visiting_alike {key key' : PresetKey} (hkey : R.Trails [key] [key']) {x y : Build Context}
    (h : (R.buildings held).Alike C x y R.contexts) :
    (R.buildings held).Alike C (visiting key x) (visiting key' y) R.contexts := by
  refine ⟨fun b hb => ?_, fun hC b c hbc hspent => ?_⟩
  · rw [effect_visiting]
    cases enter b.trail key with
    | error e => exact hb
    | ok trail => exact h.spent { b with trail } hb
  · obtain ⟨hstores, hdependencies, htrails⟩ := hbc
    rw [effect_visiting] at hspent ⊢
    rw [effect_visiting]
    rcases enter_alike htrails hkey with ⟨e, e', henter, henter'⟩ | ⟨trail, trail', henter, henter', hentered⟩
    · rw [henter, henter']
      exact hstores.known
    · have hstart : (R.buildings held).alike { b with trail } { c with trail := trail' } :=
        ⟨hstores, hdependencies, hentered⟩
      rw [henter] at hspent ⊢
      rw [henter']
      have hends := h.ends hC _ _ hstart hspent
      dsimp only
      revert hends
      rcases effect x { b with trail } with ⟨_ | a, b'⟩ <;>
        rcases effect y { c with trail := trail' } with ⟨_ | a', c'⟩
      · exact id
      · exact id
      · exact id
      · rintro ⟨ha, hgood, hstores', hdependencies', htrails'⟩
        refine ⟨ha, hgood, hstores', hdependencies', ?_⟩
        show c'.trail.dropLast.map _ = b'.trail.dropLast.map _
        rw [List.map_dropLast, List.map_dropLast]
        exact congrArg List.dropLast htrails'

/-- Defaults are remembered under the identities of the runs. -/
theorem resolve_alike (hr : R.Resolvers held C r r') (hoverlay : R.Overlays held C overlay overlay') {b : Bit}
    (hb : C → R.bits.good b) {choice : PresetChoice} (hchoice : C → (presetsOf b).good choice) :
    (R.buildings held).Alike C (r.resolve overlay b choice) (r'.resolve overlay' (b.rename R.rename) choice)
      R.contexts := by
  cases choice with
  | defaults =>
    refine defaults_alike (fun c => (hb c).1) (fun known => .pure rfl fun _ => trivial) ?_
    refine .bind (within_alike _ _ (visiting_alike (trails_keyOf R b _) (ofDefaults_alike hr hoverlay hb))) fun context => ?_
    exact .bind (putDefaults_alike (fun h => (hb h.1).1) context) fun _ => .pure rfl fun _ => trivial
  | declared place p =>
    exact within_alike _ _ (visiting_alike (trails_keyOf R b _) (ofPreset_alike hr hoverlay hb fun c =>
      (hb c).2.presets p (hchoice c place p rfl)))

theorem ofChoice_alike (hr : R.Resolvers held C r r') (room : Nat) {b : Bit} (hb : C → R.bits.good b)
    {choice : PresetChoice} (hchoice : C → (presetsOf b).good choice) :
    (R.buildings held).Alike C (r.ofChoice room b choice) (r'.ofChoice room (b.rename R.rename) choice)
      R.contexts := by
  induction room generalizing b choice C with
  | zero => exact .throw _ _
  | succ room ih =>
    refine resolve_alike hr (fun b selector => ?_) hb hchoice
    exact .bind (press_alike (chosen_alike b selector)) fun choice =>
      ih (hr.given fun h => h.1.1) (fun h => h.1.2) fun h => h.2

theorem overlay_alike (hr : R.Resolvers held C r r') : R.Overlays held C r.overlay r'.overlay := by
  intro b selector
  unfold overlay
  rw [hr.presets]
  exact .bind (press_alike (chosen_alike b selector)) fun choice =>
    ofChoice_alike (hr.given fun h => h.1.1) _ (fun h => h.1.2) fun h => h.2

end Resolver

end Bitpress
