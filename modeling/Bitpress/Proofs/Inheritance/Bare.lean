import Bitpress.Proofs.Inheritance.Memo
import Bitpress.Proofs.Inheritance.Shape
import Mathlib

/-!
Targets that add nothing to their base.

A bare target names a base and declares nothing else (`Bare`). Its base is merged
into an empty spec and carries out its overrides there, and the empty parts of the
bare target are merged on top. The base itself carries out its overrides last. Both
come to the same (`merged_bare`): merging into an empty spec only moves parts about,
which overrides do not see, and an empty part on top of what is no map makes it
empty, as it counts in a spec anyway. So along a chain of bare targets the spec is
that of the last one's base (`specOf_of_passes`).
-/

namespace Bitpress

open Outcome

namespace TargetSpec

variable {spec spec' : Table Tree} {key : String} {part : Tree}

theorem valueAt?_blank (key : String) : (toTable {}).valueAt? key = none ∨
    key ∈ parts ∧ (toTable {}).valueAt? key = some (.map []) := by
  by_cases h : key ∈ parts
  · refine .inr ⟨h, ?_⟩
    simp only [parts, List.mem_cons, List.not_mem_nil, or_false] at h
    rcases h with rfl | rfl | rfl <;> rfl
  · exact .inl (Table.valueAt?_eq_none.mpr h)

/-- A part counts by its entries: whatever is no map counts as empty. -/
theorem ofTree_put (hkey : key ∈ parts) (hpart : part.entries = ((spec.valueAt? key).bind Tree.table?).getD []) :
    ofTree (.map (spec.put key part)) = ofTree (.map spec) := by
  unfold Tree.entries at hpart
  simp only [parts, List.mem_cons, List.not_mem_nil, or_false] at hkey
  rcases hkey with rfl | rfl | rfl <;> simp [ofTree, Tree.valueAt?, Table.valueAt?_put, hpart]

theorem ofTree_same (h : spec.Same spec') : ofTree (.map spec) = ofTree (.map spec') := by
  unfold ofTree Tree.valueAt?
  simp only [h.values]

end TargetSpec

namespace Inheritance

/-- A target that declares nothing but its base. -/
structure Bare (d : TargetDecl) (reference : String) : Prop where
  bases : d.bases = [reference]
  template : d.template = none
  dest : d.dest = none
  context : d.context = []
  queries : d.queries = []
  compose : d.compose = []
  merge : d.merge = {}
  overrides : d.overrides = []

section Merging
variable {d : TargetDecl} {reference key : String} {spec : Table Tree} {overrides : List OverrideDecl}

theorem merge_blank (h : Shaped spec) : ∃ moved : Table Tree,
    (TargetSpec.toTree {}).merge .indexWise (.map spec) = .map moved ∧ moved.Same spec := by
  refine ⟨_, Tree.merge_map .indexWise (TargetSpec.toTable {}) spec, ?_, h.tidy.distinct, fun key => ?_⟩
  · exact TargetSpec.toTable_tidy_blank.distinct.mergeWith spec
  · rw [Table.valueAt?_mergeWith h.tidy.distinct]
    rcases TargetSpec.valueAt?_blank key with hnone | ⟨hkey, hsome⟩
    · rw [hnone]
      exact Option.merge_none_left
    · cases hpart : spec.valueAt? key with
      | none => exact absurd (h.parts hkey) (Table.valueAt?_eq_none.mp hpart)
      | some part =>
        rw [hsome]
        exact congrArg some (Tree.merge_empty_left .indexWise (h.tidy.keyed_at hpart))

theorem mergePart_blank (hkey : key ∈ TargetSpec.parts) (spec : Table Tree) : ∃ made,
    mergePart {} spec key (.map []) = .ok made ∧ TargetSpec.ofTree (.map made) = TargetSpec.ofTree (.map spec) := by
  have hpolicy : policyOf {} key = .ok .merge := by
    simp only [TargetSpec.parts, List.mem_cons, List.not_mem_nil, or_false] at hkey
    rcases hkey with rfl | rfl | rfl <;> rfl
  unfold mergePart
  rw [hpolicy]
  cases hpart : spec.valueAt? key with
  | none => exact ⟨_, rfl, TargetSpec.ofTree_put hkey (by rw [hpart]; rfl)⟩
  | some part =>
    refine ⟨_, rfl, TargetSpec.ofTree_put hkey ?_⟩
    rw [hpart]
    exact Tree.table?_merge_empty .indexWise part

theorem mergeParts_blank {keys : List String} (hkeys : ∀ key ∈ keys, key ∈ TargetSpec.parts) (spec : Table Tree) :
    ∃ made, (keys.map fun key => (key, Tree.map [])).foldlM (fun acc e => mergePart {} acc e.1 e.2) spec = .ok made ∧
      TargetSpec.ofTree (.map made) = TargetSpec.ofTree (.map spec) := by
  induction keys generalizing spec with
  | nil => exact ⟨spec, rfl, rfl⟩
  | cons key rest ih =>
    obtain ⟨hfirst, hrest⟩ := List.forall_mem_cons.mp hkeys
    obtain ⟨next, hnext, hsame⟩ := mergePart_blank hfirst spec
    obtain ⟨made, hmade, hbelow⟩ := ih hrest next
    exact ⟨made, bind_eq_ok.mpr ⟨next, hnext, hmade⟩, hbelow.trans hsame⟩

/-- The empty parts of a bare target change nothing that counts. -/
theorem mergeOwn_bare (hd : Bare d reference) (spec : Table Tree) :
    TargetSpec.ofTree <$> mergeOwn d (.map spec) = .ok (TargetSpec.ofTree (.map spec)) := by
  obtain ⟨made, hmade, hsame⟩ := mergeParts_blank (fun _ h => h) spec
  have hown : (TargetSpec.ofDecl d).toTable = TargetSpec.parts.map fun key => (key, Tree.map []) := by
    unfold TargetSpec.ofDecl
    rw [hd.template, hd.dest, hd.context, hd.queries, hd.compose]
    rfl
  unfold mergeOwn
  dsimp only
  rw [hown, hd.merge, hmade]
  exact congrArg Except.ok hsame

/-- A base under a bare target gives what it gives itself. -/
theorem merged_bare (hd : Bare d reference) (h : Shaped spec) (ho : ∀ o ∈ overrides, o.value.Keyed) :
    TargetSpec.ofTree <$> (mergeBase (TargetSpec.toTree {}) ⟨.map spec, overrides⟩ >>= mergeOwn d) =
      TargetSpec.ofTree <$> OverrideDecl.applyAll overrides (.map spec) := by
  obtain ⟨moved, hmoved, hsame⟩ := merge_blank h
  unfold mergeBase
  dsimp only
  rw [hmoved]
  rcases OverrideDecl.applyAll_same ho hsame with ⟨e, hleft, hright⟩ | ⟨made, made', hleft, hright, hmade⟩
  · rw [hleft, hright]
    rfl
  · rw [hleft, hright]
    exact (mergeOwn_bare hd made).trans (congrArg Except.ok (TargetSpec.ofTree_same hmade))

end Merging

namespace Catalogue

variable {c : Catalogue} {n : Nat} {file : Location} {d : TargetDecl} {t : Tree} {reference : String}
  {spec : TargetSpec}

/-- What a target gives in the end, without a trail. -/
def Gives (c : Catalogue) (file : Location) (d : TargetDecl) (spec : TargetSpec) : Prop :=
  ∃ n t, c.tree n file d = .ok t ∧ TargetSpec.ofTree <$> OverrideDecl.applyAll d.overrides t = .ok spec

/-- A target that resolves without a trail does so on its own trail. -/
theorem fold_start_of_tree (hd : c.Free file d) (ht : c.tree n file d = .ok t) :
    c.fold n (start file d) file d = .ok t := by
  refine fold_of_tree ht fun k hk hleads => ?_
  obtain ⟨r, hr, key, hkey, hback⟩ := hleads
  obtain ⟨m, key', b, _, hkey', hyields⟩ := yields_of_tree ht hr
  rw [hkey] at hkey'
  cases hkey'
  exact hyields.not_back (Above.start hd k hk r hr key hkey) hback

theorem specOf_iff_gives (hd : c.Free file d) : (∃ n, c.specOf n file d = .ok spec) ↔ c.Gives file d spec := by
  constructor
  · rintro ⟨n, h⟩
    rw [specOf, merged, map_bind] at h
    obtain ⟨t, ht, hspec⟩ := bind_eq_ok.mp h
    exact ⟨n, t, tree_of_fold ht, hspec⟩
  · rintro ⟨n, t, ht, hspec⟩
    refine ⟨n, ?_⟩
    rw [specOf, merged, fold_start_of_tree hd ht]
    exact hspec

/-- The base of a bare target. -/
structure PassesOn (c : Catalogue) (x y : Location × TargetDecl) : Prop where
  bare : ∃ reference name, Bare x.2 reference ∧ c.keyOf x.1 reference = .ok ⟨y.1, name⟩ ∧ y.2.name = some name
  declared : Declared c y.1 y.2

theorem PassesOn.gives_iff {x y : Location × TargetDecl} (hc : c.Keyed) (h : c.PassesOn x y) :
    c.Gives x.1 x.2 spec ↔ c.Gives y.1 y.2 spec := by
  obtain ⟨reference, name, hbare, hkey, hname⟩ := h.bare
  have hdeclared := h.declared name hname
  have hkeyed := hc _ _ _ hdeclared
  have htree : ∀ n base, c.tree n y.1 y.2 = .ok base →
      TargetSpec.ofTree <$> c.tree (n + 1) x.1 x.2 =
        TargetSpec.ofTree <$> OverrideDecl.applyAll y.2.overrides base := by
    intro n base hbase
    obtain ⟨spec, rfl, hshaped⟩ := shaped_of_tree hc hkeyed hbase
    have hload : c.baseWith anyway (c.load anyway (n + 1) x.2) [] x.1 reference =
        .ok ⟨.map spec, y.2.overrides⟩ :=
      baseWith_eq_ok.mpr ⟨_, hkey, [], rfl, load_eq_ok.mpr ⟨n, y.2, rfl, hdeclared, hbase, rfl⟩⟩
    rw [tree, foldWith_eq, mergeAll, hbare.bases, List.foldlM_cons, hload]
    simp only [List.foldlM_nil, bind_pure]
    exact merged_bare hbare hshaped hkeyed.overrides
  constructor
  · rintro ⟨n, t, ht, hspec⟩
    obtain ⟨m, key, b, rfl, hkey', base, hbase, hfold, _⟩ :=
      yields_of_tree ht (hbare.bases ▸ List.mem_singleton_self reference)
    rw [hkey] at hkey'
    cases hkey'
    cases hdeclared.symm.trans hbase
    refine ⟨m, b.tree, hfold, (htree m b.tree hfold).symm.trans ?_⟩
    rw [ht]
    rw [hbare.overrides] at hspec
    exact hspec
  · rintro ⟨n, base, hbase, hspec⟩
    rw [← htree n base hbase] at hspec
    cases ht : c.tree (n + 1) x.1 x.2 with
    | error e =>
      rw [ht] at hspec
      cases hspec
    | ok t =>
      refine ⟨n + 1, t, ht, ?_⟩
      rw [ht] at hspec
      rw [hbare.overrides]
      exact hspec

end Catalogue

section Resolver
variable {σ : Type} {c : Catalogue} {ready : σ → Prop} {source : TargetSource (StateM σ)} {v v' : Visit} {s s' : σ}
  {file : Location} {d : TargetDecl} {x y : Location × TargetDecl}

theorem Reached.gives_iff (ha : Answers source c ready) (h : Reached source c ready v s) (hd : c.Free file d)
    (spec : TargetSpec) :
    (∃ room, ((specOf source room file d).at v s).1.1 = .ok spec) ↔ c.Gives file d spec := by
  rw [← Catalogue.specOf_iff_gives hd]
  constructor
  · rintro ⟨room, hroom⟩
    obtain ⟨n, hn⟩ := (h.fits_of_free ha hd room).settles trivial (by rw [hroom]; simp)
    exact ⟨n, (hn n (Nat.le_refl n)).trans hroom⟩
  · rintro ⟨n, hn⟩
    exact ⟨n, ((h.fits_of_free ha hd n).same trivial (by rw [hn]; simp)).trans hn⟩

/-- A target at the start of a chain of bare targets has the spec of the one at its end, or none if that
one has none. -/
theorem specOf_of_passes (ha : Answers source c ready) (hc : c.Keyed) (h : Reached source c ready v s)
    (h' : Reached source c ready v' s') (hx : c.Free x.1 x.2) (hpath : Relation.ReflTransGen c.PassesOn x y)
    (spec : TargetSpec) :
    (∃ room, ((specOf source room x.1 x.2).at v s).1.1 = .ok spec) ↔
      ∃ room, ((specOf source room y.1 y.2).at v' s').1.1 = .ok spec := by
  have hy : c.Free y.1 y.2 := by
    rcases hpath.cases_tail with rfl | ⟨_, _, hlast⟩
    · exact hx
    · exact hlast.declared.free
  have hgives : c.Gives x.1 x.2 spec ↔ c.Gives y.1 y.2 spec := by
    clear hy
    induction hpath with
    | refl => rfl
    | tail _ hlast ih => exact ih.trans (hlast.gives_iff hc)
  rw [h.gives_iff ha hx spec, hgives, ← h'.gives_iff ha hy spec]

end Resolver

namespace Heirs

def library : Location := ⟨"lib.json"⟩

/-- Its overrides leave it no context, no template and no compose. -/
def root : TargetDecl where
  name := some "root"
  template := some "t.tex"
  dest := some "out"
  context := [("a", .int 1)]
  queries := [("q", .map [("k", .null)])]
  overrides := [⟨"context", .str "none", none⟩, ⟨"template", .int 3, none⟩, ⟨"q.k", .bool true, some "set"⟩,
    ⟨"compose", .null, some "remove"⟩]

def middle : TargetDecl := { name := some "middle", extends? := some (.one "root") }

def file : Location := ⟨"a.json"⟩

def top : TargetDecl := { name := some "top", extends? := some (.many ["lib.json::middle"]) }

def catalogue : Catalogue := .ofTargets [(library, root), (library, middle), (file, top)]

def spec : TargetSpec := { dest := some "out", queries := [("q", .map [("k", .bool true)])] }

theorem keyed : catalogue.Keyed := by
  intro f name d h
  obtain ⟨e, hfind, rfl⟩ := Option.map_eq_some_iff.mp (Except.ok.inj h)
  have hmem := List.mem_of_find?_eq_some hfind
  simp only [List.mem_cons, List.not_mem_nil, or_false] at hmem
  have hheir : ∀ (n : String) (b : Extends), ({ name := some n, extends? := some b } : TargetDecl).Keyed :=
    fun _ _ => ⟨List.nodup_nil, List.nodup_nil, List.nodup_nil, fun _ ho => by cases ho⟩
  rcases hmem with rfl | rfl | rfl
  · refine ⟨(by decide : ["a"].Nodup), (by decide : ["q"].Nodup), List.nodup_nil, fun o ho => ?_⟩
    simp only [root, List.mem_cons, List.not_mem_nil, or_false] at ho
    rcases ho with rfl | rfl | rfl | rfl <;> exact fun entries he => by cases he
  · exact hheir "middle" _
  · exact hheir "top" _

theorem passes : Relation.ReflTransGen catalogue.PassesOn (file, top) (library, root) := by
  refine .tail (.single (b := (library, middle)) ?_) ?_
  · exact ⟨⟨"lib.json::middle", "middle", ⟨rfl, rfl, rfl, rfl, rfl, rfl, rfl, rfl⟩, rfl, rfl⟩, fun _ h => by cases h; rfl⟩
  · exact ⟨⟨"root", "root", ⟨rfl, rfl, rfl, rfl, rfl, rfl, rfl, rfl⟩, rfl, rfl⟩, fun _ h => by cases h; rfl⟩

end Heirs

/-- Two bare targets above a target whose overrides take its parts away. -/
theorem specOf_of_passes_heirs :
    ((specOf Heirs.catalogue.source 0 Heirs.library Heirs.root).at {} ()).1.1 = .ok Heirs.spec ∧
      ∃ room, ((specOf Heirs.catalogue.source room Heirs.file Heirs.top).at {} ()).1.1 = .ok Heirs.spec := by
  have hroot : ((specOf Heirs.catalogue.source 0 Heirs.library Heirs.root).at {} ()).1.1 = .ok Heirs.spec := by cbv
  have htop : Declared Heirs.catalogue Heirs.file Heirs.top := fun _ h => by cases h; rfl
  exact ⟨hroot, (specOf_of_passes (x := (Heirs.file, Heirs.top)) Heirs.catalogue.source_answers Heirs.keyed
    (.start (s := ()) trivial) (.start (s := ()) trivial) htop.free Heirs.passes Heirs.spec).mpr ⟨0, hroot⟩⟩

end Inheritance

end Bitpress
