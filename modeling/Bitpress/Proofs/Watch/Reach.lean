import Bitpress.Proofs.Files
import Bitpress.Store
import Mathlib.Data.List.Induction
import Mathlib.Data.List.Nodup
import Mathlib.Data.List.Perm.Subperm
import Mathlib.Logic.Relation

/-!
What is watched for a registry: the registry, and all that it depends on, directly
or through other ones (`Store.mem_watchPaths`), each once and the registry first
(`Store.watchPaths_closure`).

The search has one round for each location that it comes to. It comes to none
twice, and to none that no registry of the store depends on, so there are never
fewer rounds left than locations (`Store.Search.finish`). Hence it comes to its
end in every store, also where dependencies lead in circles or to registries that
the store does not have.
-/

namespace Bitpress.Store

variable {s : Store} {l : Library} {root p q : Location} {seen pending rest : List Location}

/-- A registry was built from another one, when it was last built. -/
def DependsOn (s : Store) (p q : Location) : Prop := q ∈ (s.registry p).contents.dependencies

/-- Only a registry that the store has depends on anything. -/
theorem dependsOn_iff : s.DependsOn p q ↔ ∃ r, s.registry? p = some r ∧ q ∈ r.contents.dependencies := by
  unfold DependsOn registry
  cases s.registry? p with
  | none => exact ⟨nofun, nofun⟩
  | some r => exact ⟨fun h => ⟨r, rfl, h⟩, fun ⟨_, hr, h⟩ => Option.some.inj hr ▸ h⟩

/-- The locations that a search from a root may come to. -/
def mentioned (s : Store) (root : Location) : List Location :=
  root :: s.registries.flatMap fun r => r.contents.dependencies

theorem length_mentioned (s : Store) (root : Location) : (s.mentioned root).length ≤ s.mentions + 1 := by
  rw [mentioned, List.length_cons, Library.length_flatMap_eq]
  exact Nat.succ_le_succ (Library.total_le_total fun _ _ => Nat.le_succ _)

theorem DependsOn.mentioned (h : s.DependsOn p q) (root : Location) : q ∈ s.mentioned root := by
  obtain ⟨r, hr, hq⟩ := dependsOn_iff.mp h
  exact List.mem_cons_of_mem _ (List.mem_flatMap.mpr ⟨r, List.mem_of_find?_eq_some hr, hq⟩)

/-! ### One round -/

/-- The locations that a round finds, from what is seen already and what the next registry depends on. -/
def found (seen dependencies : List Location) : List Location :=
  dependencies.foldl (fun acc d => if acc.contains d || seen.contains d then acc else acc ++ [d]) []

theorem found_concat (seen ds : List Location) (d : Location) :
    found seen (ds ++ [d]) =
      if d ∈ found seen ds ∨ d ∈ seen then found seen ds else found seen ds ++ [d] := by
  unfold found
  simp only [List.foldl_append, List.foldl_cons, List.foldl_nil, Bool.or_eq_true, List.contains_iff_mem]

theorem mem_found {ds : List Location} : q ∈ found seen ds ↔ q ∈ ds ∧ q ∉ seen := by
  induction ds using List.reverseRecOn with
  | nil => simp [found]
  | append_singleton ds d ih =>
    rw [found_concat]
    split
    · rw [List.mem_append, List.mem_singleton, ih]
      grind
    · rw [List.mem_append, List.mem_append, List.mem_singleton, ih]
      grind

theorem found_nodup (seen ds : List Location) : (found seen ds).Nodup := by
  induction ds using List.reverseRecOn with
  | nil => exact List.nodup_nil
  | append_singleton ds d ih =>
    rw [found_concat]
    split
    · exact ih
    · rename_i hnew
      rw [← List.concat_eq_append]
      exact .concat (fun hmem => hnew (.inl hmem)) ih

/-- One round of a search that nobody counts: the location that was put aside last is looked up, and what it
depends on is put aside if it is new. A search that has put nothing aside has no further round. -/
inductive Round (s : Store) : List Location × List Location → List Location × List Location → Prop
  | look (seen : List Location) (p : Location) (rest : List Location) :
    Round s (seen, p :: rest) (seen ++ found seen (s.registry p).contents.dependencies,
      (found seen (s.registry p).contents.dependencies).reverse ++ rest)

theorem reach_cons (s : Store) (fuel : Nat) (seen : List Location) (p : Location) (rest : List Location) :
    s.reach (fuel + 1) seen (p :: rest) =
      s.reach fuel (seen ++ found seen (s.registry p).contents.dependencies)
        ((found seen (s.registry p).contents.dependencies).reverse ++ rest) := rfl

/-! ### All rounds -/

/-- A search under way: what is seen is led to, and what leads on from there is seen or pending. -/
structure Search (s : Store) (root : Location) (seen pending : List Location) : Prop where
  distinct : seen.Nodup
  inside : seen ⊆ s.mentioned root
  begun : root ∈ seen
  waiting : pending ⊆ seen
  led : ∀ q ∈ seen, Relation.ReflTransGen s.DependsOn root q
  closed : ∀ q ∈ seen, q ∉ pending → ∀ d, s.DependsOn q d → d ∈ seen

theorem Search.start (s : Store) (root : Location) : s.Search root [root] [root] where
  distinct := List.nodup_singleton root
  inside _ hq := List.mem_singleton.mp hq ▸ List.mem_cons_self ..
  begun := List.mem_singleton_self root
  waiting := List.Subset.refl _
  led _ hq := List.mem_singleton.mp hq ▸ .refl
  closed _ hq hdone := absurd hq hdone

theorem Search.round (h : s.Search root seen (p :: rest)) :
    s.Search root (seen ++ found seen (s.registry p).contents.dependencies)
      ((found seen (s.registry p).contents.dependencies).reverse ++ rest) := by
  have hp : p ∈ seen := h.waiting (List.mem_cons_self ..)
  have hnew : ∀ q ∈ found seen (s.registry p).contents.dependencies, s.DependsOn p q ∧ q ∉ seen :=
    fun q hq => mem_found.mp hq
  refine ⟨?_, fun q hq => ?_, List.mem_append_left _ h.begun, fun q hq => ?_, fun q hq => ?_,
    fun q hq hdone d hd => ?_⟩
  · refine List.nodup_append.mpr ⟨h.distinct, found_nodup _ _, fun a ha b hb he => (hnew b hb).2 ?_⟩
    rwa [← he]
  · rcases List.mem_append.mp hq with hq | hq
    · exact h.inside hq
    · exact (hnew q hq).1.mentioned root
  · rcases List.mem_append.mp hq with hq | hq
    · exact List.mem_append_right _ (List.mem_reverse.mp hq)
    · exact List.mem_append_left _ (h.waiting (List.mem_cons_of_mem p hq))
  · rcases List.mem_append.mp hq with hq | hq
    · exact h.led q hq
    · exact .tail (h.led p hp) (hnew q hq).1
  · have hold : q ∈ seen := (List.mem_append.mp hq).resolve_right fun hq =>
      hdone (List.mem_append_left _ (List.mem_reverse.mpr hq))
    by_cases hqp : q = p
    · subst hqp
      by_cases hseen : d ∈ seen
      · exact List.mem_append_left _ hseen
      · exact List.mem_append_right _ (mem_found.mpr ⟨hd, hseen⟩)
    · refine List.mem_append_left _ (h.closed q hold (fun hq => ?_) d hd)
      exact (List.mem_cons.mp hq).elim hqp fun hq => hdone (List.mem_append_right _ hq)

/-- What is seen stays seen, in its order, and the search goes on under the same conditions. -/
theorem Search.rounds {x y : List Location × List Location} (h : s.Search root x.1 x.2)
    (hrounds : Relation.ReflTransGen s.Round x y) : s.Search root y.1 y.2 ∧ x.1 <+: y.1 := by
  induction hrounds with
  | refl => exact ⟨h, List.prefix_refl _⟩
  | tail _ hlast ih =>
    obtain ⟨seen, p, rest⟩ := hlast
    exact ⟨ih.1.round, ih.2.trans (List.prefix_append ..)⟩

/-- With a round for each location that is not seen yet and for each that is pending, nothing is pending in the
end. -/
theorem Search.finish {fuel : Nat} (h : s.Search root seen pending)
    (hfuel : pending.length + (s.mentioned root).length ≤ fuel + seen.length) :
    Relation.ReflTransGen s.Round (seen, pending) (s.reach fuel seen pending, []) := by
  induction fuel generalizing seen pending with
  | zero =>
    have hlength := (List.subperm_of_subset h.distinct h.inside).length_le
    have hpending : pending = [] := List.length_eq_zero_iff.mp (by omega)
    subst hpending
    exact .refl
  | succ fuel ih =>
    cases pending with
    | nil => exact .refl
    | cons p rest =>
      rw [reach_cons]
      refine .head (.look seen p rest) (ih h.round ?_)
      simp only [List.length_append, List.length_reverse, List.length_cons] at hfuel ⊢
      omega

theorem rounds_watchPaths (h : l.locate p = .ok root) :
    Relation.ReflTransGen s.Round ([root], [root]) (s.watchPaths l p, []) := by
  have hlength := s.length_mentioned root
  unfold watchPaths
  rw [h]
  refine (Search.start s root).finish ?_
  simp only [List.length_singleton]
  omega

theorem search_watchPaths (h : l.locate p = .ok root) :
    s.Search root (s.watchPaths l p) [] ∧ [root] <+: s.watchPaths l p :=
  Search.rounds (Search.start s root) (rounds_watchPaths h)

/-- What is watched for a registry: all that it leads to through dependencies. -/
theorem mem_watchPaths (h : l.locate p = .ok root) :
    q ∈ s.watchPaths l p ↔ Relation.ReflTransGen s.DependsOn root q := by
  obtain ⟨hsearch, -⟩ := search_watchPaths (s := s) h
  refine ⟨hsearch.led q, fun hpath => ?_⟩
  induction hpath with
  | refl => exact hsearch.begun
  | tail _ hlast ih => exact hsearch.closed _ ih List.not_mem_nil _ hlast

/-- **A registry is watched with all that it leads to**: whatever the dependencies of the store, the search comes
to its end; it names the registry first, and each location that the registry leads to once and no other. -/
theorem watchPaths_closure (h : l.locate p = .ok root) :
    Relation.ReflTransGen s.Round ([root], [root]) (s.watchPaths l p, []) ∧
      (s.watchPaths l p).head? = some root ∧ (s.watchPaths l p).Nodup ∧
      ∀ q, q ∈ s.watchPaths l p ↔ Relation.ReflTransGen s.DependsOn root q := by
  obtain ⟨hsearch, hfront⟩ := search_watchPaths (s := s) h
  refine ⟨rounds_watchPaths h, ?_, hsearch.distinct, fun q => mem_watchPaths h⟩
  obtain ⟨rest, hrest⟩ := hfront
  rw [← hrest]
  rfl

namespace Ring

def a : Location := ⟨"/a.yml"⟩

def b : Location := ⟨"/b.yml"⟩

def c : Location := ⟨"/c.yml"⟩

def d : Location := ⟨"/d.yml"⟩

/-- Two registries that depend on each other, and on others that the store does not have. -/
def store : Store :=
  { registries := [{ path := a, contents := { dependencies := [b, c, b] } },
      { path := b, contents := { dependencies := [a, b, d] } }] }

def library : Library := { files := .dir [("a.yml", .file (.text ""))] }

end Ring

theorem watchPaths_closure_of_ring : Ring.library.locate Ring.a = .ok Ring.a ∧
    Relation.ReflTransGen Ring.store.Round ([Ring.a], [Ring.a]) ([Ring.a, Ring.b, Ring.c, Ring.d], []) ∧
    ∀ q, q ∈ [Ring.a, Ring.b, Ring.c, Ring.d] ↔ Relation.ReflTransGen Ring.store.DependsOn Ring.a q := by
  have hlocate : Ring.library.locate Ring.a = .ok Ring.a := rfl
  have hwatched : Ring.store.watchPaths Ring.library Ring.a = [Ring.a, Ring.b, Ring.c, Ring.d] := by decide +kernel
  obtain ⟨hrounds, -, -, hmem⟩ := watchPaths_closure (s := Ring.store) hlocate
  rw [hwatched] at hrounds hmem
  exact ⟨hlocate, hrounds, hmem⟩

end Bitpress.Store
