import Bitpress.Proofs.Bit
import Bitpress.Proofs.Fault
import Bitpress.Proofs.Preset.Query
import Bitpress.Proofs.Steady
import Bitpress.Proofs.Trail
import Mathlib.Logic.Relation

/-!
Where resolving presets leads.

A preset of a bit (`Pick`) selects another if one of its queries, or one of the
queries inside them, finds a bit and picks that preset of it (`Setting.Selects`).
The presets on the trail of a build are a walk along these selections, each
preset once. As there are only so many presets, the walk ends before the room for
it does (`ofChoice_comes`); if it meets a preset that it passed before, the error
shows the walk from there on, which is closed (`Setting.Shows`).

What the other registries do to a build is left open (`Setting.Bears`), and so is
what a build has on its trail (`Setting.Carries`).
-/

namespace Bitpress

open Outcome

/-- A bit with one of its presets. -/
abbrev Pick := Bit × PresetChoice

namespace Pick

def key (k : Pick) : PresetKey := Resolver.keyOf k.1 k.2

/-- What tells picks apart. -/
def pair (k : Pick) : ElementId × Option Nat := (k.key.bit, k.key.preset)

/-- The preset is one of those of the bit. -/
def Own (k : Pick) : Prop :=
  match k.2 with
  | .defaults => True
  | .declared place p => k.1.presets[place]? = some p

/-- The maps of queries that are run for the variables of a preset. -/
def tables (k : Pick) : List (Table Tree) :=
  match k.2 with
  | .defaults => [k.1.defaults.queries]
  | .declared _ p =>
    match p.tree k.1 with
    | .ok tree => [Legacy.queriesOf (Resolver.partOf tree "context"), Resolver.partOf tree "queries"]
    | .error _ => []

theorem same_key (k k' : Pick) : k.key.same k'.key = true ↔ k.pair = k'.pair := by
  simp [PresetKey.same, pair]

end Pick

/-- A bit with each of its presets. -/
def Bit.pairs (b : Bit) : List (ElementId × Option Nat) :=
  (b.info.id, none) :: (List.range b.presets.length).map fun place => (b.info.id, some place)

theorem Pick.Own.pair_mem {k : Pick} (h : k.Own) : k.pair ∈ k.1.pairs := by
  obtain ⟨b, choice⟩ := k
  cases choice with
  | defaults => exact List.mem_cons_self ..
  | declared place p =>
    obtain ⟨hplace, _⟩ := List.getElem?_eq_some_iff.mp h
    exact List.mem_cons_of_mem _ (List.mem_map.mpr ⟨place, List.mem_range.mpr hplace, rfl⟩)

theorem PresetChoice.choose_own {b : Bit} {selector : Option PresetSelector} {choice : PresetChoice}
    (h : choose b selector = .ok choice) : Pick.Own (b, choice) := by
  cases choice with
  | defaults => exact trivial
  | declared place p =>
    have hpicks : Picks b.label b.presets selector (.ok (.declared place p)) := h ▸ picks_choose b selector
    exact hpicks.there

/-! ### What surrounds a resolver -/

/-- What resolving changes besides the trail. -/
abbrev Ground := Store × List Location

def Building.ground (s : Building) : Ground := (s.store, s.dependencies)

/-- What a build that resolves queries relies on: what holds of its ground between the steps, how the
ground moves, what other registries hold and which presets there are on a ground, and the errors that do
not come from the trail. -/
structure Setting where
  inv : Ground → Prop
  le : Ground → Ground → Prop
  bits : Ground → Location → Collection Bit → Prop
  pairs : Ground → List (ElementId × Option Nat)
  fails : Error → Prop
  refl : ∀ g, le g g
  trans : ∀ {f g h}, le f g → le g h → le f h

namespace Setting

variable (S : Setting) (r : Resolver)

/-- Steps that leave the trail as it is. -/
def course : Course Building where
  inv s := S.inv s.ground
  le s t := S.le s.ground t.ground ∧ t.trail = s.trail
  err := S.fails
  refl s := ⟨S.refl s.ground, rfl⟩
  trans h h' := ⟨S.trans h.1 h'.1, h'.2.trans h.2⟩

/-- The bits that a query is about. -/
def Sought (g : Ground) (q : QuerySpec) (c : Collection Bit) : Prop :=
  match q.registry with
  | none => c = r.bits
  | some reference => ∃ p, r.library.locateFrom r.path reference = .ok p ∧
      if p = r.path then c = r.bits else S.bits g p c

/-- A query of a map finds a bit and picks one of its presets. -/
def Finds (g : Ground) (t : Table Tree) (k : Pick) : Prop :=
  ∃ name q c, QuerySpec.Stands t name q ∧ QueryKind.forQuery name q.kind = .bits ∧ S.Sought r g q c ∧
    (∃ session found, (effect (Query.matching c q) session).1 = .ok found ∧ k.1 ∈ found) ∧
    PresetChoice.choose k.1 q.preset = .ok k.2

/-- A query of a preset, or one inside its queries, finds a bit and picks one of its presets. -/
def Selects (g : Ground) (k k' : Pick) : Prop :=
  ∃ t ∈ k.tables, ∃ u, Relation.ReflTransGen Inside t u ∧ S.Finds r g u k'

/-- The error of the build itself shows presets that each select the next, from one of them back to it. -/
def Shows (g : Ground) (e : Error) : Prop :=
  e.Blameless ∧ ∃ picks, ClosedWalk (S.Selects r g) Pick.pair picks ∧
    (e.root = .reference (.defaultsCycle (picks.map Pick.key)) ∨
      e.root = .reference (.presetCycle (picks.map Pick.key)))

/-- A resolver fits its setting, as far as it runs the queries of maps with `on`: the setting takes what
resolving does, knows the presets of all bits that queries find, and provides for the registries that
queries name. -/
structure Bears (on : Table Tree → Prop) : Prop where
  plain : ∀ e, e.Plain → S.fails e
  within : ∀ context e, S.fails e → S.fails (.within context e)
  session : ∀ g session, S.inv g → Press.ahead.le g.1.session session →
    S.inv ({ g.1 with session }, g.2) ∧ S.le g ({ g.1 with session }, g.2)
  defaults : ∀ g id c, S.inv g → (id, none) ∈ S.pairs g →
    S.inv (g.1.putDefaults id c, g.2) ∧ S.le g (g.1.putDefaults id c, g.2)
  bits_mono : ∀ {g h p c}, S.le g h → S.bits g p c → S.bits h p c
  pairs_mono : ∀ {g h}, S.le g h → S.pairs g ⊆ S.pairs h
  few : ∀ g, S.inv g → (S.pairs g).length ≤ r.presets
  own : ∀ g, S.inv g → ∀ b ∈ r.bits.items, b.pairs ⊆ S.pairs g
  lent : ∀ g p c, S.inv g → S.bits g p c → ∀ b ∈ c.items, b.pairs ⊆ S.pairs g
  depend : ∀ s t name q reference p, S.inv s.ground → on t → QuerySpec.Stands t name q →
    q.registry = some reference → r.library.locateFrom r.path reference = .ok p → p ≠ r.path →
    Comes S.course (r.depend p) s fun c t => S.bits t.ground p c.bits
  inside : ∀ t u, on t → Inside t u → on u
  found : ∀ g t k, S.inv g → on t → S.Finds r g t k → ∀ u ∈ k.tables, on u

/-- Steps of a resolver with something on the trail: what the setting takes they take as well, where it is a step that
leaves the defaults alone or has another registry loaded. -/
structure Carries (on : Table Tree → Prop) (C : Course Building) : Prop where
  inv : ∀ {s}, C.inv s → S.inv s.ground
  le : ∀ {s t}, C.le s t → S.le s.ground t.ground
  within : ∀ context e, C.err e → C.err (.within context e)
  still : ∀ {α : Type} {x : Build α} {s post}, C.inv s → Comes S.course x s post →
    (∀ a t, effect x s = (.ok a, t) → ∀ id, t.store.defaults? id = s.store.defaults? id) → Comes C x s post
  depend : ∀ {s t name q reference p}, C.inv s → on t → QuerySpec.Stands t name q → q.registry = some reference →
    r.library.locateFrom r.path reference = .ok p → p ≠ r.path →
    Comes C (r.depend p) s fun c t => S.bits t.ground p c.bits

end Setting

namespace Setting

variable {S : Setting} {r : Resolver} {on : Table Tree → Prop} {g h : Ground} {t : Table Tree} {k k' : Pick}
  {w : List Pick}

section Moves

variable (hS : S.Bears r on) (hle : S.le g h)

include hS hle

theorem Sought.move {q : QuerySpec} {c : Collection Bit} (hc : S.Sought r g q c) : S.Sought r h q c := by
  unfold Sought at *
  split at hc
  · exact hc
  · obtain ⟨p, hp, hc⟩ := hc
    refine ⟨p, hp, ?_⟩
    split at hc
    · rename_i hpath
      rw [if_pos hpath]
      exact hc
    · rename_i hpath
      rw [if_neg hpath]
      exact hS.bits_mono hle hc

theorem Finds.move (hk : S.Finds r g t k) : S.Finds r h t k := by
  obtain ⟨name, q, c, hq, hkind, hc, hfound, hchoice⟩ := hk
  exact ⟨name, q, c, hq, hkind, hc.move hS hle, hfound, hchoice⟩

theorem Selects.move (hk : S.Selects r g k k') : S.Selects r h k k' := by
  obtain ⟨t, ht, u, hu, hk⟩ := hk
  exact ⟨t, ht, u, hu, hk.move hS hle⟩

end Moves

/-- A bit that a query finds has its presets among those known. -/
theorem Finds.pair_mem (hS : S.Bears r on) (hg : S.inv g) (hk : S.Finds r g t k) : k.pair ∈ S.pairs g := by
  obtain ⟨name, q, c, _, _, hc, ⟨session, found, hfound, hmem⟩, hchoice⟩ := hk
  have hin : k.1 ∈ c.items := by
    have hcomes := Query.matching_comes c q session
    exact (hcomes.ok found _ (Prod.ext hfound rfl)).2.2 _ hmem
  have hpairs : k.1.pairs ⊆ S.pairs g := by
    unfold Sought at hc
    split at hc
    · subst hc
      exact hS.own g hg _ hin
    · obtain ⟨p, _, hc⟩ := hc
      split at hc
      · subst hc
        exact hS.own g hg _ hin
      · exact hS.lent g p c hg hc _ hin
  exact hpairs (PresetChoice.choose_own hchoice).pair_mem

/-! ### Walks -/

variable (S r) in
/-- The presets on the trail of a build. -/
structure Walk (g : Ground) (w : List Pick) : Prop where
  known : ∀ k ∈ w, k.pair ∈ S.pairs g
  trail : Trail (S.Selects r g) Pick.pair w

variable (S r) in
/-- Steps with the presets of a walk on the trail. -/
def walking (w : List Pick) : Course Building where
  inv s := S.inv s.ground ∧ s.trail = w.map Pick.key ∧ S.Walk r s.ground w
  le := S.course.le
  err e := S.fails e ∨ ∃ g, S.inv g ∧ S.Shows r g e
  refl := S.course.refl
  trans := S.course.trans

theorem Walk.move (hS : S.Bears r on) (hle : S.le g h) (hw : S.Walk r g w) : S.Walk r h w :=
  ⟨fun k hk => hS.pairs_mono hle (hw.known k hk), hw.trail.imp fun _ _ hk => hk.move hS hle⟩

/-- There is room for every walk. -/
theorem Walk.length_le (hS : S.Bears r on) (hg : S.inv g) (hw : S.Walk r g w) : w.length ≤ r.presets :=
  Nat.le_trans (hw.trail.length_le hw.known) (hS.few g hg)

/-- A preset that the last one selects is put on the trail, or it closes a walk. -/
theorem Walk.enter (hw : S.Walk r g w) (hk : k.pair ∈ S.pairs g) (hlast : ∀ k' ∈ w.getLast?, S.Selects r g k' k) :
    (Resolver.enter (w.map Pick.key) k.key = .ok ((w ++ [k]).map Pick.key) ∧ S.Walk r g (w ++ [k])) ∨
      ∃ e, Resolver.enter (w.map Pick.key) k.key = .error e ∧ S.Shows r g e := by
  unfold Resolver.enter
  split
  · rename_i hnone
    refine .inl ⟨by rw [List.map_append, List.map_singleton], ⟨fun k' hk' => ?_, hw.trail.enter hlast ?_⟩⟩
    · rcases List.mem_append.mp hk' with hk' | hk'
      · exact hw.known k' hk'
      · cases List.mem_singleton.mp hk'
        exact hk
    · intro k' hk' hpair
      have := List.findIdx?_eq_none_iff.mp hnone k'.key (List.mem_map_of_mem hk')
      rw [(Pick.same_key k' k).mpr hpair] at this
      cases this
  · rename_i i hfound
    refine .inr ⟨_, rfl, rfl, w.drop i ++ [k], ?_, ?_⟩
    · obtain ⟨hlt, hsame, _⟩ := List.findIdx?_eq_some_iff_getElem.mp hfound
      rw [List.length_map] at hlt
      rw [List.getElem_map] at hsame
      exact hw.trail.close hlast hlt ((Pick.same_key _ _).mp hsame)
    · rw [List.map_append, List.map_drop, List.map_singleton]
      show (Error.reference _ = _) ∨ (Error.reference _ = _)
      split
      · exact .inl rfl
      · exact .inr rfl

/-- A step that leaves the trail as it is can be taken on any walk. -/
theorem walking_of_course (hS : S.Bears r on) {s : Building} {x : Build α} {post : α → Building → Prop}
    (hs : (S.walking r w).inv s) (hx : Comes S.course x s post) : Comes (S.walking r w) x s post := by
  refine ⟨fun a t h => ?_, fun e t h => .inl (hx.error e t h)⟩
  obtain ⟨hinv, hle, hpost⟩ := hx.ok a t h
  exact ⟨⟨hinv, hle.2.trans hs.2.1, hs.2.2.move hS hle.1⟩, hle, hpost⟩

theorem walking_carries (hS : S.Bears r on) (w : List Pick) : S.Carries r on (S.walking r w) where
  inv hs := hs.1
  le hle := hle.1
  within context e he := he.imp (hS.within context e) fun ⟨g, hg, hblameless, hshows⟩ => ⟨g, hg, hblameless, hshows⟩
  still hs hx _ := walking_of_course hS hs hx
  depend hs ht hq hreference hp hne := walking_of_course hS hs (hS.depend _ _ _ _ _ _ hs.1 ht hq hreference hp hne)

end Setting

end Bitpress
