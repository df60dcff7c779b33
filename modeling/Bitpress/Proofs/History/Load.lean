import Bitpress.Proofs.History.Build
import Bitpress.Proofs.Load.Fate

/-!
Two loads of the same registry.

Both run to the same end, and leave stores that are alike (`load_loads`). A
registry is loaded in the same mode in both runs: the one that is asked for in
full, and any other one by what it was loaded in before.
-/

namespace Bitpress

open Likeness

variable {R : Runs} {held : List Location} {C : Prop} {p : Location} {s t : Store}

namespace Runs

/-- Two loads of a registry that is not current. -/
structure Loads (R : Runs) (p : Location) (x y : StoreM Unit) : Prop where
  spent : ∀ s : Store, R.Spent s → R.Spent (effect x s).2
  ends : ∀ held s t, R.Stores held s t → (s.registry p).isCurrent R.left = false →
    ¬ R.Spent (effect x s).2 → (R.stores (held ++ [p])).Ends .same (effect x s) (effect y t)

/-- A registry that is current in one run is current in the other, and not loaded again. -/
theorem Loads.unlessCurrent {load load' : Location → StoreM Unit} {generation generation' : Nat}
    (h : R.Loads p (load p) (load' p)) (hC : C → generation = R.left ∧ generation' = R.right) :
    R.Fetches C p (Load.unlessCurrent generation load p) (Load.unlessCurrent generation' load' p) := by
  refine ⟨fun s hs => ?_, fun c held s t hst => ?_⟩
  · rw [Load.effect_unlessCurrent]
    split
    · exact hs
    · exact h.spent s hs
  · obtain ⟨rfl, rfl⟩ := hC c
    rw [Load.effect_unlessCurrent, Load.effect_unlessCurrent, hst.current p]
    split
    · rename_i hcurrent
      refine fun _ => ⟨rfl, trivial, { hst with held := fun q hq => ?_ }⟩
      rcases List.mem_append.mp hq with hq | hq
      · exact hst.held q hq
      · exact List.mem_singleton.mp hq ▸ hcurrent
    · rename_i hnew
      exact h.ends held s t hst (Bool.eq_false_iff.mpr hnew)

/-- The registry is loading in both stores. -/
theorem Stores.begun (h : R.Stores held s t) (hnew : (s.registry p).isCurrent R.left = false) (mode mode' : LoadMode) :
    R.Stores held (Load.begun s mode p) (Load.begun t mode' p) := by
  refine .say (h.put ?_ ?_ rfl (fun hcurrent => (by cases hcurrent)) fun q hq => ?_) _ _
  · show (t.registry p).path = (s.registry p).path
    rw [Store.registry_path, Store.registry_path]
  · show (s.registry p).path ≠ R.root → _
    rw [Store.registry_path]
    exact h.full p
  · have hcurrent := h.held q hq
    have hother : q ≠ p := by
      rintro rfl
      rw [hnew] at hcurrent
      cases hcurrent
    show if q = (s.registry p).path then _ else _
    rw [Store.registry_path, if_neg hother]
    exact hq

/-- The registry is loaded in both stores, with contents that belong together. -/
theorem Stores.built {c c' : Contents} (h : R.Stores held s t) (hc : c' = R.contents.image c)
    (hgood : R.contents.good c) (mode : LoadMode) :
    R.Stores (held ++ [p]) (s.put ⟨p, .loaded, R.left, some mode, c⟩) (t.put ⟨p, .loaded, R.right, some mode, c'⟩) := by
  refine h.put rfl (fun _ _ => Iff.rfl) ?_ (fun _ => ⟨hc, hgood⟩) fun q hq => ?_
  · simp [Registry.isCurrent]
  · show if q = p then _ else _
    split
    · simp [Registry.isCurrent]
    · rename_i hother
      rcases List.mem_append.mp hq with hq | hq
      · exact hq
      · exact absurd (List.mem_singleton.mp hq) hother

/-- A load of a registry is one that the first run makes, if it does not use too much. -/
theorem Stores.touched (h : R.Stores held s t) {mode : LoadMode} (hspent : ¬ R.Spent (Load.begun s mode p)) :
    R.touched p := by
  refine Classical.byContradiction fun hp => hspent (.inr ⟨p, (s.registry p).modeFor mode, ?_, hp⟩)
  show _ ∈ (s.trace ++ [_]).drop R.told
  rw [List.drop_append_of_le_length h.told]
  exact List.mem_append_right _ (List.mem_singleton_self _)

/-- Registries are loaded in the same mode. -/
theorem Stores.modeFor (h : R.Stores held s t) (hp : R.touched p) {mode : LoadMode}
    (hmode : p = R.root → mode = .full) :
    (t.registry p).modeFor mode = (s.registry p).modeFor mode := by
  unfold Registry.modeFor
  by_cases hroot : p = R.root
  · rw [hmode hroot]
    split <;> split <;> rfl
  · have hsame := h.full p hroot hp
    by_cases hfull : (s.registry p).mode = some .full
    · rw [if_pos hfull, if_pos (hsame.mp hfull)]
    · rw [if_neg hfull, if_neg fun ht => hfull (hsame.mpr ht)]

end Runs

namespace Load

open Runs

variable {l : Library} {extent : Library.Extent} {trail : List Location}

theorem ofBuild_alike {α β : Type} {x : Build α} {y : Build β} {T : Tie α β} (h : (R.buildings held).Alike C x y T) :
    (R.stores held).Alike C (ofBuild x) (ofBuild y) T := by
  refine ⟨fun s hs => ?_, fun c s t hst hspent => ?_⟩
  · rw [effect_ofBuild]
    exact h.spent { store := s } hs
  · have hstart : (R.buildings held).alike { store := s } { store := t } := by
      refine ⟨?_, rfl, rfl⟩
      rw [List.append_nil]
      exact hst
    rw [effect_ofBuild] at hspent ⊢
    rw [effect_ofBuild]
    have hends := h.ends c { store := s } { store := t } hstart hspent
    revert hends
    rcases effect x { store := s } with ⟨_ | a, b⟩ <;> rcases effect y { store := t } with ⟨_ | a', b'⟩
    · exact id
    · exact id
    · exact id
    · exact fun ⟨ha, hgood, hafter, _⟩ => ⟨ha, hgood, hafter.mono (List.subset_append_left _ _)⟩

/-- What a load leaves when its build is over. -/
def closed (p : Location) (mode : LoadMode) (before : Registry) (generation : Nat) :
    Outcome Contents × Store → Outcome Unit × Store
  | (.ok c, t) => (.ok (), t.put ⟨p, .loaded, generation, some mode, c⟩)
  | (.error e, t) => (.error (.registryLoad p e), (t.put { before with status := .failed }).say (.failed p))

/-- What is said about the end of a load is not that another one begins. -/
theorem closed_spent (mode : LoadMode) (before : Registry) (generation : Nat) (out : Outcome Contents × Store) :
    R.Spent (closed p mode before generation out).2 ↔ R.Spent out.2 := by
  rcases out with ⟨e | c, t⟩
  · have hsaid : ∀ q mode, LoadEvent.loading q mode ∈ (t.trace ++ [LoadEvent.failed p]).drop R.told ↔
        LoadEvent.loading q mode ∈ t.trace.drop R.told := by
      intro q mode
      rw [List.drop_append, List.mem_append, or_iff_left]
      exact fun h => (by cases List.mem_singleton.mp (List.mem_of_mem_drop h))
    exact or_congr Iff.rfl (exists_congr fun q => exists_congr fun mode => and_congr (hsaid q mode) Iff.rfl)
  · exact Iff.rfl

theorem begun_spent (mode : LoadMode) (h : R.Spent s) : R.Spent (begun s mode p) := by
  rcases h with h | ⟨q, mode', hq, htouched⟩
  · exact .inl h
  · refine .inr ⟨q, mode', ?_, htouched⟩
    show _ ∈ (s.trace ++ [_]).drop R.told
    rw [List.drop_append]
    exact List.mem_append_left _ hq

theorem closed_ends {out out' : Outcome Contents × Store} (h : (R.stores held).Ends R.contents out out')
    (mode : LoadMode) (before before' : Registry) :
    (R.stores (held ++ [p])).Ends .same (closed p mode before R.left out) (closed p mode before' R.right out') := by
  rcases out with ⟨_ | c, s⟩ <;> rcases out' with ⟨_ | c', t⟩
  · exact h
  · exact h
  · exact h
  · exact ⟨rfl, trivial, h.2.2.built h.1 h.2.1 mode⟩

/-- Loads that begin, build the registry and close go alike if their builds do. -/
theorem loads_of_builds {load : StoreM Unit} {x : Store → StoreM Contents} {mode : LoadMode}
    (heffect : ∀ s, effect load s = closed p ((s.registry p).modeFor mode) (s.registry p) s.generation
      (effect (x s) (begun s mode p)))
    (hbuild : ∀ held s t, (t.registry p).modeFor mode = (s.registry p).modeFor mode →
      (R.stores held).Alike (s.generation = R.left ∧ t.generation = R.right) (x s) (x t) R.contents)
    (hmode : p = R.root → mode = .full) : R.Loads p load load := by
  refine ⟨fun s hs => ?_, fun held s t hst hnew => ?_⟩
  · rw [heffect, closed_spent]
    exact (hbuild [] s s rfl).spent (begun s mode p) (begun_spent mode hs)
  · intro hspent
    rw [heffect, closed_spent] at hspent
    have htouched := hst.touched fun hs => hspent ((hbuild [] s s rfl).spent (begun s mode p) hs)
    have hsame := hst.modeFor htouched hmode
    rw [heffect, heffect, hst.left, hst.right, hsame]
    refine closed_ends ?_ _ _ _
    exact (hbuild held s t hsame).ends ⟨hst.left, hst.right⟩ _ _ (hst.begun hnew mode mode) hspent

theorem loadWith_loads (hplain : ∀ p d, l.document p = .ok d → d.AllTexts R.Fixed)
    {next : List Location → Location → StoreM Unit}
    (hnext : ∀ q, q ∉ trail ++ [p] → R.Loads q (next (trail ++ [p]) q) (next (trail ++ [p]) q))
    {mode : LoadMode} (hmode : p = R.root → mode = .full) :
    R.Loads p (loadWith l extent next mode trail p) (loadWith l extent next mode trail p) := by
  refine loads_of_builds (x := buildFrom l extent next mode trail p) (fun s => ?_) (fun held s t hsame => ?_) hmode
  · rw [effect_loadWith]
    rcases effect (buildFrom l extent next mode trail p s) (begun s mode p) with ⟨_ | c, t⟩ <;> rfl
  · unfold buildFrom
    rw [hsame]
    exact ofBuild_alike (build_alike (fun q hq => (hnext q hq).unlessCurrent id) hplain extent _ p)

/-- Every load below the one that is asked for is of another registry. -/
theorem load_loads (hplain : ∀ p d, l.document p = .ok d → d.AllTexts R.Fixed) (room : Nat) {mode : LoadMode}
    (hmode : p = R.root → mode = .full) (hroot : R.root ∈ trail ++ [p]) :
    R.Loads p (load l extent room mode trail p) (load l extent room mode trail p) := by
  induction room generalizing mode trail p with
  | zero =>
    rw [load_zero]
    exact ⟨fun _ hs => hs, fun _ _ _ hst _ _ => hst.known⟩
  | succ room ih =>
    rw [load_succ]
    refine loadWith_loads hplain (fun q hq => ?_) hmode
    exact ih (fun hq' => absurd (hq' ▸ hroot) hq) (List.mem_append_left _ hroot)

end Load

end Bitpress
