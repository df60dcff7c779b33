import Bitpress.Preset
import Bitpress.Proofs.Bit
import Bitpress.Proofs.Collection
import Bitpress.Proofs.Compose
import Bitpress.Proofs.Likeness
import Bitpress.Proofs.Wording
import Mathlib.Tactic.SplitIfs

/-!
Two sessions that give out the same identities but for a shift.

Sessions are alike when the second one is ahead in identities by a fixed number,
and when the choices without a seed that the first one may still make find the
same random words (`Runs.sessions`). Then elements are made, found, chosen and
composed alike, with their identities shifted.
-/

namespace Bitpress

open Likeness

namespace ElementId

/-- Moves the fresh identities from the `first`-th to before the `last`-th ahead by `d`, those that they
pass into their places, and no others. -/
def advance (first last d : Nat) (id : ElementId) : ElementId :=
  if id.value < firstFresh + first ∨ firstFresh + last + d ≤ id.value then id
  else if id.value < firstFresh + last then ⟨id.value + d⟩
  else ⟨id.value - (last - first)⟩

theorem advance_injective (first last d : Nat) : Function.Injective (advance first last d) := by
  intro a b h
  cases a with | mk a =>
  cases b with | mk b =>
  unfold advance at h
  dsimp only at h
  split_ifs at h <;> simp only [mk.injEq] at h ⊢ <;> omega

theorem advance_inside {first last d : Nat} {id : ElementId} (hfirst : firstFresh + first ≤ id.value)
    (hlast : id.value < firstFresh + last) : advance first last d id = ⟨id.value + d⟩ := by
  unfold advance
  rw [if_neg (by omega), if_pos hlast]

theorem advance_fresh {first last n : Nat} (d : Nat) (hfirst : first ≤ n) (hlast : n < last) :
    advance first last d (fresh n) = fresh (n + d) :=
  (advance_inside (Nat.add_le_add_left hfirst _) (Nat.add_lt_add_left hlast _)).trans
    (congrArg mk (Nat.add_assoc firstFresh n d))

theorem advance_outside {first last d : Nat} {id : ElementId}
    (h : id.value < firstFresh + first ∨ firstFresh + last + d ≤ id.value) : advance first last d id = id := by
  unfold advance
  rw [if_pos h]

theorem advance_zero (first last : Nat) (id : ElementId) : advance first last 0 id = id := by
  unfold advance
  split
  · rfl
  · rw [if_pos (by omega)]
    rfl

end ElementId

/-- Two runs of one request. -/
structure Runs where
  /-- How far the second run is ahead in identities. -/
  shift : Nat
  /-- How many identities were given out before the first run, -/
  first : Nat
  /-- and how many at its end. -/
  last : Nat
  /-- How many choices without a seed were made at its end. -/
  choices : Nat
  /-- The generations of the two runs. -/
  left : Nat
  right : Nat
  /-- The registry that is asked for. -/
  root : Location
  /-- The registries that the first run loads. -/
  touched : Location → Prop
  /-- How much was said in the first store before its run. -/
  told : Nat

namespace Runs

def rename (R : Runs) : ElementId → ElementId := .advance R.first R.last R.shift

theorem rename_injective (R : Runs) : Function.Injective R.rename :=
  ElementId.advance_injective R.first R.last R.shift

/-- The identity is one that the first run gives out. -/
def Young (R : Runs) (id : ElementId) : Prop :=
  ElementId.firstFresh + R.first ≤ id.value ∧ id.value < ElementId.firstFresh + R.last

theorem Young.rename_eq {R : Runs} {id : ElementId} (h : R.Young id) : R.rename id = ⟨id.value + R.shift⟩ :=
  ElementId.advance_inside h.1 h.2

/-- If the text is read as an identity, it is one that the runs have in common. -/
def Fixed (R : Runs) (s : String) : Prop := ∀ id, ElementId.read? (Text.trim s) = some id → R.rename id = id

structure Sessions (R : Runs) (s t : Session) : Prop where
  first : R.first ≤ s.identities
  ahead : t.identities = s.identities + R.shift
  words : ∀ k, s.choices + k < R.choices → s.entropy (s.choices + k) = t.entropy (t.choices + k)

def sessions (R : Runs) : Likeness Session where
  alike := R.Sessions
  spent s := R.choices < s.choices ∨ R.last < s.identities
  left _ := True
  left_of_alike _ := trivial

variable {R : Runs} {C : Prop} {α β : Type}

/-! ### Steps on sessions -/

theorem freshId_alike : R.sessions.Alike C Press.freshId Press.freshId ⟨R.rename, R.Young⟩ := by
  refine ⟨fun s hs => ?_, fun _ s t hst hspent => ?_⟩
  · rcases hs with hs | hs
    · exact .inl hs
    · exact .inr (Nat.lt_succ_of_lt hs)
  · show _ ∧ _ ∧ _
    have hlast : ¬ R.last < s.identities + 1 := fun h => hspent (.inr h)
    have hfirst := hst.first
    refine ⟨?_, ⟨?_, ?_⟩, ?_, ?_, hst.words⟩
    · show ElementId.fresh t.identities = R.rename (ElementId.fresh s.identities)
      rw [hst.ahead]
      exact (ElementId.advance_fresh _ hfirst (Nat.le_of_not_lt hlast)).symm
    · show _ ≤ ElementId.firstFresh + s.identities
      omega
    · show ElementId.firstFresh + s.identities < _
      omega
    · exact Nat.le_succ_of_le hst.first
    · show t.identities + 1 = s.identities + 1 + R.shift
      rw [hst.ahead]
      omega

/-- What is said about a step does not matter. -/
theorem warnAll_alike (ws ws' : List Warning) :
    R.sessions.Alike C (Press.warnAll ws) (Press.warnAll ws') .same :=
  ⟨fun _ hs => hs, fun _ _ _ hst _ => ⟨rfl, trivial, hst.first, hst.ahead, hst.words⟩⟩

theorem warn_alike (w w' : Warning) : R.sessions.Alike C (Press.warn w) (Press.warn w') .same :=
  warnAll_alike [w] [w']

theorem randomSource_alike (seed : Option Nat) :
    R.sessions.Alike C (Press.randomSource seed) (Press.randomSource seed) .same := by
  cases seed with
  | some seed => exact .pure rfl fun _ => trivial
  | none =>
    refine ⟨fun s hs => ?_, fun _ s t hst hspent => ?_⟩
    · rcases hs with hs | hs
      · exact .inl (Nat.lt_succ_of_lt hs)
      · exact .inr hs
    · have hleft : s.choices + 0 < R.choices := by
        have : ¬ R.choices < s.choices + 1 := fun h => hspent (.inl h)
        omega
      refine ⟨(hst.words 0 hleft).symm, trivial, hst.first, hst.ahead, fun k hk => ?_⟩
      have hnext := hst.words (k + 1)
      show s.entropy (s.choices + 1 + k) = t.entropy (t.choices + 1 + k)
      rw [Nat.add_right_comm, Nat.add_right_comm t.choices]
      exact hnext (by show s.choices + (k + 1) < _; have : s.choices + 1 + k < R.choices := hk; omega)

theorem ofOutcome_alike {x : Outcome α} {y : Outcome β} {T : Tie α β} (h : Outcome.Mirrors T.image x y)
    (hgood : C → ∀ a, x = .ok a → T.good a) : R.sessions.Alike C (Press.ofOutcome x) (Press.ofOutcome y) T :=
  .of_outcome (Press.effect_ofOutcome x) (Press.effect_ofOutcome y) h hgood

/-- What is done with random words, of which there are any only if they are needed. -/
theorem source_alike {needed : Bool} {seed : Option Nat} {f : RandomSource → Press α} {g : RandomSource → Press β}
    {T : Tie α β} (hf : ∀ source, R.sessions.Alike C (f source) (g source) T) :
    R.sessions.Alike C (if needed then Press.randomSource seed >>= f else pure (ChaCha.seeded 0) >>= f)
      (if needed then Press.randomSource seed >>= g else pure (ChaCha.seeded 0) >>= g) T := by
  split
  · exact .bind (randomSource_alike seed) fun source => (hf source).given And.left
  · exact hf (ChaCha.seeded 0)

/-! ### Elements -/

theorem create_alike (name : Option String) (tags : List String) (metadata : Table Tree) :
    R.sessions.Alike C (ElementInfo.create name tags metadata) (ElementInfo.create name tags metadata)
      ⟨ElementInfo.rename R.rename, fun i => R.Young i.id⟩ :=
  .bind freshId_alike fun _ => .pure rfl fun h => h.2

/-- Bits of the first run, which ask for no identity that the runs do not have in common. -/
def bits (R : Runs) : Tie Bit Bit := ⟨Bit.rename R.rename, fun b => R.Young b.info.id ∧ b.AllTexts R.Fixed⟩

def constants (R : Runs) : Tie Constant Constant := ⟨Constant.rename R.rename, fun _ => True⟩

theorem bitOfDecl_alike (d : BitDecl) (tags : List String) (hd : C → d.AllTexts R.Fixed) :
    R.sessions.Alike C (Bit.ofDecl d tags) (Bit.ofDecl d tags) R.bits := by
  unfold Bit.ofDecl
  dsimp only
  split
  · exact .throw_bind _ _ _ _
  · refine .bind (warnAll_alike _ _) fun _ => .bind (create_alike _ _ _) fun info => ?_
    refine .bind (warnAll_alike _ _) fun _ => .pure rfl fun h => ⟨h.1.2, ?_⟩
    have hd := hd h.1.1.1
    exact ⟨DefaultsSpec.ofTable_allTexts hd.defaults, fun preset hp => hd.presets preset (List.mem_filter.mp hp).1⟩

theorem constantOfDecl_alike (d : ConstantDecl) (tags : List String) :
    R.sessions.Alike C (Constant.ofDecl d tags) (Constant.ofDecl d tags) R.constants :=
  .bind (create_alike _ _ _) fun _ => .pure rfl fun _ => trivial

/-! ### Queries and presets -/

theorem selected_alike (h : α → β) (s : SelectSpec) (items : List α) :
    R.sessions.Alike C (Query.selected s items) (Query.selected s (items.map h))
      ⟨List.map h, fun found => ∀ a ∈ found, a ∈ items⟩ :=
  source_alike fun source =>
    .pure (Selection.pick_map h source s items) fun _ _ ha => Selection.mem_pick ha

/-- Parts of a collection. -/
def partsOf (h : α → α) (c : Collection α) : Tie (Collection α) (Collection α) :=
  ⟨Collection.map h, fun found => ∀ a ∈ found.items, a ∈ c.items⟩

theorem picked_alike (h : α → α) (c found : Collection α) (q : QuerySpec) :
    R.sessions.Alike (C ∧ (partsOf h c).good found) (Query.picked q found) (Query.picked q ((partsOf h c).image found))
      ⟨List.map h, fun items => ∀ a ∈ items, a ∈ c.items⟩ := by
  unfold Query.picked
  cases q.select with
  | none => exact .pure rfl fun hfound => hfound.2
  | some s => exact (selected_alike h s found.items).imp fun hfound as has a ha => hfound.2 a (has a ha)

/-- A query finds the same elements under new identities, and none that are not there. -/
theorem matching_alike [Element α] {h : α → α} (hr : Element.Renames R.rename h) (c : Collection α) (q : QuerySpec)
    (hq : C → q.AllTexts R.Fixed) :
    R.sessions.Alike C (Query.matching c q) (Query.matching (c.map h) q)
      ⟨List.map h, fun found => ∀ a ∈ found, a ∈ c.items⟩ := by
  unfold Query.matching
  dsimp only
  cases hw : q.predicate? with
  | none => exact .bind (R := partsOf h c) (.pure rfl fun _ _ ha => ha) fun found => picked_alike h c found q
  | some clause =>
    refine .bind (R := partsOf h c) ?_ fun found => picked_alike h c found q
    by_cases hfixed : clause.Fixed R.rename
    · exact ofOutcome_alike (Collection.whereClause_map R.rename_injective hr c hfixed)
        fun _ found hfound a ha => Collection.mem_whereClause hfound ha
    · -- Under the condition, the clause asks for no identity that is renamed.
      have hno : ¬ C := fun hC => hfixed fun written id hid => (hq hC).predicate? hw written hid id
      refine ⟨fun s hs => ?_, fun hC => absurd hC hno⟩
      cases c.whereClause clause <;> exact hs

theorem choose_rename (f : ElementId → ElementId) (b : Bit) (selector : Option PresetSelector) :
    Outcome.Mirrors id (PresetChoice.choose b selector) (PresetChoice.choose (b.rename f) selector) := by
  have hplace : ∀ i, Outcome.Mirrors id (PresetChoice.atPlace b i) (PresetChoice.atPlace (b.rename f) i) := by
    intro i
    unfold PresetChoice.atPlace Bit.rename
    dsimp only
    split
    · exact .same _
    · exact .error _ _
  cases selector with
  | none => exact .same _
  | some selector =>
    cases selector with
    | index i => exact hplace i
    | name s =>
      unfold PresetChoice.choose
      dsimp only
      split
      · exact .same _
      · have hfirst : ∀ test, PresetChoice.first? (b.rename f) test = PresetChoice.first? b test := fun _ => rfl
        rw [hfirst, hfirst]
        split
        · exact .same _
        · split
          · exact hplace _
          · exact .error _ _

theorem mem_presets_of_choose {b : Bit} {selector : Option PresetSelector} {place : Nat} {preset : PresetDecl}
    (h : PresetChoice.choose b selector = .ok (.declared place preset)) : preset ∈ b.presets := by
  have hpicks : PresetChoice.Picks b.label b.presets selector (.ok (.declared place preset)) :=
    h ▸ PresetChoice.picks_choose b selector
  exact List.mem_of_getElem? hpicks.there

/-- Declared presets of a bit, or its defaults. -/
def presetsOf (b : Bit) : Tie PresetChoice PresetChoice :=
  ⟨id, fun choice => ∀ place preset, choice = .declared place preset → preset ∈ b.presets⟩

theorem chosen_alike (b : Bit) (selector : Option PresetSelector) :
    R.sessions.Alike C (Preset.chosen b selector) (Preset.chosen (b.rename R.rename) selector) (presetsOf b) := by
  have hchoose : ∀ D : Prop, R.sessions.Alike D (Press.ofOutcome (PresetChoice.choose b selector))
      (Press.ofOutcome (PresetChoice.choose (b.rename R.rename) selector)) (presetsOf b) := fun D =>
    ofOutcome_alike (choose_rename R.rename b selector) fun _ choice h place preset he =>
      mem_presets_of_choose (he ▸ h)
  have hid : PresetChoice.usesId (b.rename R.rename) selector = PresetChoice.usesId b selector := rfl
  unfold Preset.chosen
  dsimp only
  rw [hid]
  split
  · exact .bind (warn_alike _ _) fun _ => hchoose _
  · exact hchoose _

/-! ### Composing -/

open Compose

def progress (R : Runs) : Tie Progress Progress := ⟨Progress.rename R.rename, fun _ => True⟩

def contexts (R : Runs) : Tie Context Context := ⟨Context.rename R.rename, fun _ => True⟩

def results (R : Runs) : Tie (Table QueryResult) (Table QueryResult) :=
  ⟨Table.mapValues (QueryResult.rename R.rename), fun _ => True⟩

theorem addEntry_alike (p : Progress) (name : String) (groups : List (List ContextValue)) (grouped : Bool)
    (spec : ComposeSpec) :
    R.sessions.Alike C (addEntry p name groups grouped spec)
      (addEntry (p.rename R.rename) name (groups.map (List.map (.rename R.rename))) grouped spec) R.progress := by
  refine source_alike fun source => ?_
  have hone := one_rename R.rename_injective source groups grouped spec
  dsimp only
  revert hone
  cases one source groups grouped spec with
  | error e =>
    cases one source (groups.map (List.map (.rename R.rename))) grouped spec with
    | error e' => exact fun _ => .throw _ _
    | ok made => exact fun h => by cases h
  | ok made =>
    cases one source (groups.map (List.map (.rename R.rename))) grouped spec with
    | error e' => exact fun h => by cases h
    | ok made' =>
      intro h
      cases h
      exact .pure (Progress.add_rename p name spec made) fun _ => True.intro

theorem addAggregate_alike (results : Table QueryResult) (p : Progress) (name : String) (spec : ComposeSpec)
    (sources : List String) :
    R.sessions.Alike C (addAggregate results p name spec sources)
      (addAggregate (R.results.image results) (p.rename R.rename) name spec sources) R.progress := by
  have hfound : ((sources.map fun s => (s, sourceGroups? (p.rename R.rename) (R.results.image results) s)).filterMap
      Prod.snd).flatten =
      (((sources.map fun s => (s, sourceGroups? p results s)).filterMap Prod.snd).flatten).map
        (List.map (.rename R.rename)) := by
    have hsource : ∀ s, sourceGroups? (p.rename R.rename) (R.results.image results) s =
        (sourceGroups? p results s).map (List.map (List.map (.rename R.rename))) := fun s =>
      sourceGroups?_rename p results s
    rw [List.filterMap_map, List.filterMap_map, List.map_flatten, List.map_filterMap]
    exact congrArg (fun pick => (List.filterMap pick sources).flatten) (funext hsource)
  refine .bind (warnAll_alike _ _) fun _ => ?_
  rw [hfound]
  exact addEntry_alike p name _ true spec

theorem run_alike (results : Table QueryResult) (specs : Table ComposeSpec) :
    R.sessions.Alike C (Compose.run results specs) (Compose.run (R.results.image results) specs) R.contexts := by
  refine .bind (R := R.progress) (.foldlM (R := R.progress) (a := {}) (fun e _ p => ?_) fun _ => trivial) fun plain => ?_
  · dsimp only
    rw [QueryResult.groups_rename, QueryResult.isMulti_rename]
    exact addEntry_alike p e.1 e.2.groups e.2.isMulti (entryFor specs e.1)
  · refine .bind (R := R.progress) (.foldlM_same (fun e _ p => ?_) fun _ => trivial) fun all => .pure rfl fun _ => trivial
    split
    · exact addAggregate_alike results p e.1 e.2 _
    · exact .pure rfl fun _ => trivial

end Runs

end Bitpress
