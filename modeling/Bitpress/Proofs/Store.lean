import Bitpress.Store

/-!
The store as a map from files to registries and from bits to defaults: what
putting something does at its key and at all others.
-/

namespace Bitpress.Store

variable {s t u : Store} {r : Registry} {p q : Location} {id other : ElementId} {c v : Context} {e : LoadEvent}

/-! ### Registries -/

theorem registry_path (s : Store) (p : Location) : (s.registry p).path = p := by
  unfold registry registry?
  cases h : s.registries.find? fun r => r.path == p with
  | none => rfl
  | some r => simpa using List.find?_some h

theorem registry_put_self (s : Store) (r : Registry) : (s.put r).registry r.path = r := by
  have hfind : (s.put r).registries.find? (fun q => q.path == r.path) = some r := by
    unfold put
    split
    · rename_i hany
      simp only
      generalize s.registries = known at hany
      induction known with
      | nil => cases hany
      | cons q rest ih =>
        rw [List.map_cons, List.find?_cons]
        by_cases hq : (q.path == r.path) = true
        · rw [if_pos hq, beq_self_eq_true]
        · rw [if_neg hq, Bool.eq_false_iff.mpr hq]
          refine ih ?_
          rw [List.any_cons, Bool.or_eq_true] at hany
          exact hany.resolve_left hq
    · rename_i hany
      have hnone : s.registries.find? (fun q => q.path == r.path) = none := by
        refine List.find?_eq_none.mpr fun q hq hsame => hany (List.any_eq_true.mpr ⟨q, hq, hsame⟩)
      simp only
      rw [List.find?_append, hnone]
      simp
  unfold registry registry?
  rw [hfind]
  rfl

theorem registry_put_of_ne (s : Store) (h : q ≠ r.path) : (s.put r).registry q = s.registry q := by
  have hne : (r.path == q) = false := beq_eq_false_iff_ne.mpr (Ne.symm h)
  have hfind : (s.put r).registries.find? (fun x => x.path == q) = s.registries.find? fun x => x.path == q := by
    unfold put
    split
    · simp only
      induction s.registries with
      | nil => rfl
      | cons x rest ih =>
        rw [List.map_cons, List.find?_cons, List.find?_cons, ih]
        by_cases hx : (x.path == r.path) = true
        · rw [if_pos hx, hne]
          have : (x.path == q) = false := by rw [eq_of_beq hx]; exact hne
          rw [this]
        · rw [if_neg hx]
    · simp only
      rw [List.find?_append]
      cases s.registries.find? fun x => x.path == q with
      | none => simp [hne]
      | some x => rfl
  unfold registry registry?
  rw [hfind]

theorem put_generation (s : Store) (r : Registry) : (s.put r).generation = s.generation := rfl

theorem say_registry (s : Store) (e : LoadEvent) (p : Location) : (s.say e).registry p = s.registry p := rfl

/-! ### Defaults -/

theorem defaults?_putDefaults_of_ne (s : Store) (c : Context) (h : other ≠ id) :
    (s.putDefaults id c).defaults? other = s.defaults? other := by
  unfold putDefaults
  split
  · rfl
  · have : (id == other) = false := beq_eq_false_iff_ne.mpr (Ne.symm h)
    unfold defaults?
    rw [List.find?_cons, this]

theorem defaults?_putDefaults_self (s : Store) (id : ElementId) (c : Context) :
    (s.putDefaults id c).defaults? id = some ((s.defaults? id).getD c) := by
  unfold putDefaults
  split
  · rename_i h
    obtain ⟨v, hv⟩ := Option.isSome_iff_exists.mp h
    rw [hv]
    rfl
  · rename_i h
    rw [Option.not_isSome_iff_eq_none.mp h]
    simp [defaults?]

theorem putDefaults_registry (s : Store) (id : ElementId) (c : Context) (p : Location) :
    (s.putDefaults id c).registry p = s.registry p := by
  unfold putDefaults
  split <;> rfl

theorem putDefaults_generation (s : Store) (id : ElementId) (c : Context) :
    (s.putDefaults id c).generation = s.generation := by
  unfold putDefaults
  split <;> rfl

theorem putDefaults_trace (s : Store) (id : ElementId) (c : Context) :
    (s.putDefaults id c).trace = s.trace := by
  unfold putDefaults
  split <;> rfl

theorem putDefaults_session (s : Store) (id : ElementId) (c : Context) :
    (s.putDefaults id c).session = s.session := by
  unfold putDefaults
  split <;> rfl

/-- Defaults that were there stay as they were. -/
def KeepsDefaults (s t : Store) : Prop := ∀ id v, s.defaults? id = some v → t.defaults? id = some v

theorem KeepsDefaults.trans (h : KeepsDefaults s t) (h' : KeepsDefaults t u) : KeepsDefaults s u :=
  fun id v hv => h' id v (h id v hv)

theorem KeepsDefaults.putDefaults (s : Store) (id : ElementId) (c : Context) :
    KeepsDefaults s (s.putDefaults id c) := by
  intro other v hv
  by_cases h : other = id
  · subst h
    rw [defaults?_putDefaults_self, hv]
    rfl
  · rw [defaults?_putDefaults_of_ne s c h, hv]

/-! ### What a registry shows -/

/-- Contents with the resolved defaults of their bits. -/
def shown (s : Store) (c : Contents) : Contents × List (Option Context) :=
  (c, c.bits.items.map fun b => s.defaults? b.info.id)

/-- What the registry of a file shows. -/
def exposed (s : Store) (p : Location) : Contents × List (Option Context) := s.shown (s.registry p).contents

/-- The defaults of all bits are resolved. -/
def Settles (s : Store) (c : Contents) : Prop := ∀ b ∈ c.bits.items, ∃ v, s.defaults? b.info.id = some v

theorem Settles.mono {c : Contents} (h : s.Settles c) (hd : KeepsDefaults s t) : t.Settles c := by
  intro b hb
  obtain ⟨v, hv⟩ := h b hb
  exact ⟨v, hd _ v hv⟩

/-- Once its defaults are resolved, contents show the same for good. -/
theorem Settles.shown_eq {c : Contents} (h : s.Settles c) (hd : KeepsDefaults s t) : t.shown c = s.shown c := by
  unfold shown
  refine congrArg (Prod.mk c) (List.map_congr_left fun b hb => ?_)
  obtain ⟨v, hv⟩ := h b hb
  rw [hd _ v hv, hv]

/-- The defaults of all bits in all registries are resolved. -/
def Settled (s : Store) : Prop := ∀ p, s.Settles (s.registry p).contents

end Bitpress.Store
