import Bitpress.Inheritance
import Bitpress.Proofs.Outcome
import Mathlib.Logic.Relation

/-!
Inheritance without a memo.

A `Catalogue` is what a source of targets answers: the declaration of a name in a
file, and the file that a reference means. `Catalogue.fold` merges the bases of a
target by asking for every base again, with the trail that finds cycles;
`Catalogue.tree` does the same without a trail.

The targets that a target extends make a graph (`Edge`). A target that resolves
lies on no cycle of it (`Yields.acyclic`), so for such a target the trail changes
nothing (`fold_of_tree`).
-/

namespace Bitpress

/-- What tells targets apart: the parts of the file and the name. -/
def TargetKey.identity (k : TargetKey) : List Location.Part × String := (k.file.parts, k.name)

theorem TargetKey.same_iff {a b : TargetKey} : a.same b = true ↔ a.identity = b.identity := by
  simp [TargetKey.same, Location.same, TargetKey.identity]

namespace Inheritance

/-- What a source of targets answers. All spellings of a file get the same answers. -/
structure Catalogue where
  declaration : Location → String → Outcome (Option TargetDecl)
  locate : Location → String → Outcome Location
  declaration_congr : ∀ {f g : Location} (name : String), f.parts = g.parts →
    declaration f name = declaration g name
  locate_congr : ∀ {f g : Location} {reference : String} {p : Location}, f.parts = g.parts →
    locate f reference = .ok p → ∃ q, locate g reference = .ok q ∧ q.parts = p.parts

/-- Merges the bases that `base` gives for the references of a target, and the target's own parts. -/
def mergeAll (base : String → Outcome Resolved) (d : TargetDecl) : Outcome Tree := do
  let tree ← d.bases.foldlM (fun tree reference => do mergeBase tree (← base reference))
    (TargetSpec.toTree {})
  mergeOwn d tree

section MergeAll
variable {base base' : String → Outcome Resolved} {d : TargetDecl} {t : Tree} {e : Error}

theorem mergeAll_eq_ok_of (h : ∀ r ∈ d.bases, ∀ b, base r = .ok b → base' r = .ok b)
    (ht : mergeAll base d = .ok t) : mergeAll base' d = .ok t := by
  obtain ⟨tree, hfold, hown⟩ := Outcome.bind_eq_ok.mp ht
  refine Outcome.bind_eq_ok.mpr ⟨tree, Outcome.foldlM_eq_ok_of ?_ hfold, hown⟩
  intro r hr acc acc' hstep
  obtain ⟨b, hb, hmerge⟩ := Outcome.bind_eq_ok.mp hstep
  exact Outcome.bind_eq_ok.mpr ⟨b, h r hr b hb, hmerge⟩

theorem base_eq_ok_of_mergeAll (ht : mergeAll base d = .ok t) {r : String} (hr : r ∈ d.bases) :
    ∃ b, base r = .ok b := by
  obtain ⟨_, hfold, _⟩ := Outcome.bind_eq_ok.mp ht
  obtain ⟨_, _, hstep⟩ := Outcome.exists_ok_of_foldlM hfold r hr
  obtain ⟨b, hb, _⟩ := Outcome.bind_eq_ok.mp hstep
  exact ⟨b, hb⟩

/-- Bases that differ only where the given ones fail with `e` make the same target, unless it fails
with `e`. -/
theorem mergeAll_eq_of_ne (h : ∀ r ∈ d.bases, base r ≠ .error e → base' r = base r)
    (he : mergeAll base d ≠ .error e) : mergeAll base' d = mergeAll base d := by
  have hfold : d.bases.foldlM (fun tree r => base' r >>= mergeBase tree) (TargetSpec.toTree {}) =
      d.bases.foldlM (fun tree r => base r >>= mergeBase tree) (TargetSpec.toTree {}) := by
    refine Outcome.foldlM_eq_of_ne (e := e) (fun r hr acc hne => ?_) fun hf =>
      he (Outcome.bind_eq_error.mpr (.inl hf))
    have hb : base r ≠ .error e := fun hb => hne (Outcome.bind_eq_error.mpr (.inl hb))
    rw [h r hr hb]
  exact congrArg (fun x : Outcome Tree => x >>= mergeOwn d) hfold

end MergeAll

namespace Catalogue

def keyOf (c : Catalogue) (file : Location) (reference : String) : Outcome TargetKey :=
  match splitReference reference with
  | (some other, name) => do return ⟨← c.locate file other, name⟩
  | (none, name) => return ⟨file, name⟩

/-- The base that a reference means, once `allow` lets it on the trail. -/
def baseWith (c : Catalogue) (allow : List TargetKey → TargetKey → Outcome (List TargetKey))
    (load : List TargetKey → String → TargetKey → Outcome Resolved) (trail : List TargetKey)
    (file : Location) (reference : String) : Outcome Resolved := do
  let key ← c.keyOf file reference
  load (← allow trail key) reference key

/-- The base of a key, whose own bases `below` merges. -/
def declared (c : Catalogue) (below : List TargetKey → Location → TargetDecl → Outcome Tree)
    (d : TargetDecl) (trail : List TargetKey) (reference : String) (key : TargetKey) :
    Outcome Resolved := do
  match ← c.declaration key.file key.name with
  | none => throw (.reference (.missingBase (derivedName d) reference key.file))
  | some base => return ⟨← below trail key.file base, base.overrides⟩

/-- Merges the bases of a target and its own parts, with `room` more targets on the trail at most. -/
def foldWith (c : Catalogue) (allow : List TargetKey → TargetKey → Outcome (List TargetKey)) :
    Nat → List TargetKey → Location → TargetDecl → Outcome Tree
  | 0, trail, file, d => mergeAll (c.baseWith allow (fun _ _ _ => throw .depthExceeded) trail file) d
  | room + 1, trail, file, d =>
    mergeAll (c.baseWith allow (c.declared (c.foldWith allow room) d) trail file) d

/-- With the trail that finds cycles. -/
def fold (c : Catalogue) : Nat → List TargetKey → Location → TargetDecl → Outcome Tree :=
  c.foldWith enter

def anyway (trail : List TargetKey) (_ : TargetKey) : Outcome (List TargetKey) := .ok trail

/-- Without a trail: a cycle takes up all the room. -/
def tree (c : Catalogue) (room : Nat) (file : Location) (d : TargetDecl) : Outcome Tree :=
  c.foldWith anyway room [] file d

def merged (c : Catalogue) (room : Nat) (trail : List TargetKey) (file : Location) (d : TargetDecl) :
    Outcome Tree := do
  OverrideDecl.applyAll d.overrides (← c.fold room trail file d)

/-- The trail that a target starts with. -/
def start (file : Location) (d : TargetDecl) : List TargetKey :=
  match d.name with
  | some name => [⟨file, name⟩]
  | none => []

/-- The spec of a target, each base of which is resolved anew. -/
def specOf (c : Catalogue) (room : Nat) (file : Location) (d : TargetDecl) : Outcome TargetSpec :=
  TargetSpec.ofTree <$> c.merged room (start file d) file d

/-- What resolves a base of a target that has `room`. -/
def load (c : Catalogue) (allow : List TargetKey → TargetKey → Outcome (List TargetKey)) :
    Nat → TargetDecl → List TargetKey → String → TargetKey → Outcome Resolved
  | 0, _ => fun _ _ _ => throw .depthExceeded
  | room + 1, d => c.declared (c.foldWith allow room) d

variable {c : Catalogue} {allow : List TargetKey → TargetKey → Outcome (List TargetKey)}
  {room n : Nat} {trail : List TargetKey} {file f g : Location} {d : TargetDecl} {key : TargetKey}
  {reference : String} {b : Resolved} {t : Tree}

theorem foldWith_eq : c.foldWith allow room trail file d =
    mergeAll (c.baseWith allow (c.load allow room d) trail file) d := by
  cases room <;> rfl

theorem baseWith_eq_ok {load : List TargetKey → String → TargetKey → Outcome Resolved} :
    c.baseWith allow load trail file reference = .ok b ↔
      ∃ key, c.keyOf file reference = .ok key ∧
        ∃ longer, allow trail key = .ok longer ∧ load longer reference key = .ok b := by
  simp only [baseWith, Outcome.bind_eq_ok]

theorem load_eq_ok : c.load allow room d trail reference key = .ok b ↔
    ∃ n base, room = n + 1 ∧ c.declaration key.file key.name = .ok (some base) ∧
      c.foldWith allow n trail key.file base = .ok b.tree ∧ b.overrides = base.overrides := by
  cases room with
  | zero =>
    constructor
    · intro h; cases h
    · rintro ⟨_, _, ⟨⟩, _⟩
  | succ n =>
    simp only [load, declared, Outcome.bind_eq_ok]
    constructor
    · rintro ⟨found, hfound, h⟩
      cases found with
      | none => cases h
      | some base =>
        obtain ⟨t, ht, hb⟩ := Outcome.bind_eq_ok.mp h
        cases hb
        exact ⟨n, base, rfl, hfound, ht, rfl⟩
    · rintro ⟨_, base, ⟨⟩, hfound, ht, ho⟩
      refine ⟨some base, hfound, Outcome.bind_eq_ok.mpr ⟨b.tree, ht, ?_⟩⟩
      rw [← ho]
      rfl

/-! ### More room -/

/-- A result that is not for want of room is the same with more. -/
theorem foldWith_succ (h : c.foldWith allow room trail file d ≠ .error .depthExceeded) :
    c.foldWith allow (room + 1) trail file d = c.foldWith allow room trail file d := by
  induction room generalizing trail file d with
  | zero =>
    rw [foldWith_eq] at h ⊢
    rw [foldWith_eq]
    refine mergeAll_eq_of_ne (fun r _ hne => ?_) h
    simp only [baseWith] at hne ⊢
    cases hkey : c.keyOf file r with
    | error e => rfl
    | ok key =>
      cases hallow : allow trail key with
      | error e => simp only [bind, Except.bind, hallow]
      | ok longer => simp [bind, Except.bind, hkey, hallow, load, throw, throwThe,
          MonadExceptOf.throw] at hne
  | succ room ih =>
    rw [foldWith_eq] at h ⊢
    rw [foldWith_eq]
    refine mergeAll_eq_of_ne (fun r _ hne => ?_) h
    simp only [baseWith] at hne ⊢
    cases hkey : c.keyOf file r with
    | error e => rfl
    | ok key =>
      cases hallow : allow trail key with
      | error e => simp only [bind, Except.bind, hallow]
      | ok longer =>
        simp only [bind, Except.bind, hkey, hallow, load, declared] at hne ⊢
        cases hfound : c.declaration key.file key.name with
        | error e => rfl
        | ok found =>
          cases found with
          | none => rfl
          | some base =>
            have hbelow : c.foldWith allow room longer key.file base ≠ .error .depthExceeded := by
              intro he
              simp [hfound, he] at hne
            simp only [ih hbelow]

theorem foldWith_of_le {more : Nat} (hle : room ≤ more)
    (h : c.foldWith allow room trail file d ≠ .error .depthExceeded) :
    c.foldWith allow more trail file d = c.foldWith allow room trail file d := by
  induction hle with
  | refl => rfl
  | step _ ih => rw [foldWith_succ (by rw [ih]; exact h), ih]

/-! ### The graph of what extends what -/

/-- The declaration of a target names another one among its bases. -/
def Names (c : Catalogue) (k k' : TargetKey) : Prop :=
  ∃ d reference, c.declaration k.file k.name = .ok (some d) ∧ reference ∈ d.bases ∧
    c.keyOf k.file reference = .ok k'

/-- `Names`, for targets however their files are spelled. -/
def Edge (c : Catalogue) (x y : List Location.Part × String) : Prop :=
  ∃ k k', k.identity = x ∧ k'.identity = y ∧ c.Names k k'

/-- A target declared in a file leads to another one through its bases. -/
def Leads (c : Catalogue) (file : Location) (d : TargetDecl) (y : List Location.Part × String) :
    Prop :=
  ∃ reference ∈ d.bases, ∃ k, c.keyOf file reference = .ok k ∧ Relation.ReflTransGen c.Edge k.identity y

theorem keyOf_congr (h : f.parts = g.parts) (hk : c.keyOf f reference = .ok key) :
    ∃ key', c.keyOf g reference = .ok key' ∧ key'.identity = key.identity := by
  unfold keyOf at hk ⊢
  split at hk
  · rename_i other name hs
    obtain ⟨p, hp, hkey⟩ := Outcome.bind_eq_ok.mp hk
    cases hkey
    obtain ⟨q, hq, hparts⟩ := c.locate_congr h hp
    exact ⟨⟨q, name⟩, by rw [hq]; rfl, by simp [TargetKey.identity, hparts]⟩
  · rename_i name hs
    cases hk
    exact ⟨⟨g, name⟩, rfl, by simp [TargetKey.identity, h]⟩

theorem declaration_congr_key {k k' : TargetKey} (h : k.identity = k'.identity) :
    c.declaration k.file k.name = c.declaration k'.file k'.name := by
  obtain ⟨hf, hn⟩ := Prod.mk.inj h
  rw [c.declaration_congr k.name hf, hn]

theorem Leads.edge {k : TargetKey} {y : List Location.Part × String}
    (hd : c.declaration k.file k.name = .ok (some d)) (h : c.Leads k.file d y) :
    Relation.TransGen c.Edge k.identity y := by
  obtain ⟨r, hr, k', hkey, hrest⟩ := h
  exact Relation.TransGen.head' ⟨k, k', rfl, rfl, d, r, hd, hr, hkey⟩ hrest

/-! ### Targets that resolve -/

/-- A declared target resolves, within some room, to a tree and its overrides. -/
def Yields (c : Catalogue) (n : Nat) (key : TargetKey) (b : Resolved) : Prop :=
  ∃ base, c.declaration key.file key.name = .ok (some base) ∧ c.tree n key.file base = .ok b.tree ∧
    b.overrides = base.overrides

/-- A base of a target that resolves does so with less room. -/
theorem yields_of_tree (ht : c.tree n file d = .ok t) {r : String} (hr : r ∈ d.bases) :
    ∃ m key b, n = m + 1 ∧ c.keyOf file r = .ok key ∧ c.Yields m key b := by
  rw [tree, foldWith_eq] at ht
  obtain ⟨b, hb⟩ := base_eq_ok_of_mergeAll ht hr
  obtain ⟨key, hkey, _, ⟨⟩, hload⟩ := baseWith_eq_ok.mp hb
  obtain ⟨m, base, hn, hbase, hfold, ho⟩ := load_eq_ok.mp hload
  exact ⟨m, key, b, hn, hkey, base, hbase, hfold, ho⟩

theorem Yields.edge {y : List Location.Part × String} (h : c.Yields n key b)
    (he : c.Edge key.identity y) : ∃ m < n, ∃ key' b', key'.identity = y ∧ c.Yields m key' b' := by
  obtain ⟨base, hbase, htree, _⟩ := h
  obtain ⟨k₁, k₂, h₁, h₂, d, r, hd, hr, hkey⟩ := he
  rw [declaration_congr_key h₁, hbase] at hd
  cases hd
  obtain ⟨m, k₃, b', rfl, hkey', hyields⟩ := yields_of_tree htree hr
  obtain ⟨k₄, hkey₄, h₄⟩ := keyOf_congr (Prod.mk.inj h₁).1 hkey
  rw [hkey'] at hkey₄
  cases hkey₄
  exact ⟨m, Nat.lt_succ_self m, k₃, b', h₄.trans h₂, hyields⟩

/-- A target that resolves lies on no cycle: its bases resolve with less room, theirs with less again. -/
theorem Yields.acyclic (h : c.Yields n key b) : ¬ Relation.TransGen c.Edge key.identity key.identity := by
  induction n using Nat.strongRecOn generalizing key b with
  | _ n ih =>
    intro hcycle
    obtain ⟨y, hedge, hback⟩ := Relation.TransGen.head'_iff.mp hcycle
    obtain ⟨m, hm, key', b', rfl, hyields⟩ := h.edge hedge
    exact ih m hm hyields (Relation.TransGen.tail' hback hedge)

/-- Everything below a target that resolves does so too. -/
theorem Yields.below {y : List Location.Part × String} (h : c.Yields n key b)
    (hpath : Relation.ReflTransGen c.Edge key.identity y) :
    ∃ m key' b', key'.identity = y ∧ c.Yields m key' b' := by
  induction hpath with
  | refl => exact ⟨n, key, b, rfl, h⟩
  | tail _ hedge ih =>
    obtain ⟨m, key', b', rfl, hyields⟩ := ih
    obtain ⟨m', _, key'', b'', hy, hyields'⟩ := hyields.edge hedge
    exact ⟨m', key'', b'', hy, hyields'⟩

/-- A target that resolves leads to no cycle. -/
theorem acyclic_of_tree {y : List Location.Part × String} (ht : c.tree n file d = .ok t)
    (h : c.Leads file d y) : ¬ Relation.TransGen c.Edge y y := by
  obtain ⟨r, hr, k, hkey, hpath⟩ := h
  obtain ⟨m, k', b, _, hkey', hyields⟩ := yields_of_tree ht hr
  rw [hkey] at hkey'
  cases hkey'
  obtain ⟨m', k', b', rfl, hyields'⟩ := hyields.below hpath
  exact hyields'.acyclic

/-! ### With and without a trail -/

theorem tree_congr (h : f.parts = g.parts) (ht : c.tree n f d = .ok t) : c.tree n g d = .ok t := by
  induction n using Nat.strongRecOn generalizing f g d t with
  | _ n ih =>
    rw [tree, foldWith_eq] at ht ⊢
    refine mergeAll_eq_ok_of (fun r _ b hb => ?_) ht
    obtain ⟨key, hkey, _, ⟨⟩, hload⟩ := baseWith_eq_ok.mp hb
    obtain ⟨m, base, rfl, hbase, hbelow, ho⟩ := load_eq_ok.mp hload
    obtain ⟨key', hkey', hid⟩ := keyOf_congr h hkey
    refine baseWith_eq_ok.mpr ⟨key', hkey', [], rfl, load_eq_ok.mpr ⟨m, base, rfl, ?_, ?_, ho⟩⟩
    · rw [declaration_congr_key hid, hbase]
    · exact ih m (Nat.lt_succ_self m) (Prod.mk.inj hid).1.symm hbelow

/-- What resolves with a trail does so without. -/
theorem tree_of_fold (ht : c.fold room trail file d = .ok t) : c.tree room file d = .ok t := by
  induction room using Nat.strongRecOn generalizing trail file d t with
  | _ room ih =>
    rw [fold, foldWith_eq] at ht
    rw [tree, foldWith_eq]
    refine mergeAll_eq_ok_of (fun r _ b hb => ?_) ht
    obtain ⟨key, hkey, longer, _, hload⟩ := baseWith_eq_ok.mp hb
    obtain ⟨m, base, rfl, hbase, hbelow, ho⟩ := load_eq_ok.mp hload
    exact baseWith_eq_ok.mpr ⟨key, hkey, [], rfl,
      load_eq_ok.mpr ⟨m, base, rfl, hbase, ih m (Nat.lt_succ_self m) hbelow, ho⟩⟩

theorem enter_eq_ok_iff {longer : List TargetKey} : enter trail key = .ok longer ↔
    (∀ k ∈ trail, k.identity ≠ key.identity) ∧ longer = trail ++ [key] := by
  unfold enter
  cases h : trail.findIdx? fun k => k.same key with
  | none =>
    have hnone : ∀ k ∈ trail, k.identity ≠ key.identity := fun k hk he => by
      have := List.findIdx?_eq_none_iff.mp h k hk
      rw [TargetKey.same_iff.mpr he] at this
      cases this
    simp only [Except.ok.injEq]
    exact ⟨fun hl => ⟨hnone, hl.symm⟩, fun hl => hl.2.symm⟩
  | some i =>
    obtain ⟨hlt, hsame, _⟩ := List.findIdx?_eq_some_iff_getElem.mp h
    refine ⟨fun hl => (by cases hl), fun hl => absurd (TargetKey.same_iff.mp hsame) (hl.1 _ ?_)⟩
    exact List.getElem_mem hlt

/-- A target that resolves without a trail does so with one that holds nothing the target leads to. -/
theorem fold_of_tree (ht : c.tree n file d = .ok t)
    (htrail : ∀ k ∈ trail, ¬ c.Leads file d k.identity) : c.fold n trail file d = .ok t := by
  induction n using Nat.strongRecOn generalizing trail file d t with
  | _ n ih =>
    have hacyclic : ∀ y, c.Leads file d y → ¬ Relation.TransGen c.Edge y y :=
      fun y hy => acyclic_of_tree ht hy
    rw [tree, foldWith_eq] at ht
    rw [fold, foldWith_eq]
    refine mergeAll_eq_ok_of (fun r hr b hb => ?_) ht
    obtain ⟨key, hkey, _, ⟨⟩, hload⟩ := baseWith_eq_ok.mp hb
    obtain ⟨m, base, rfl, hbase, hbelow, ho⟩ := load_eq_ok.mp hload
    have hleads : ∀ y, Relation.ReflTransGen c.Edge key.identity y → c.Leads file d y :=
      fun y hy => ⟨r, hr, key, hkey, hy⟩
    have henter : enter trail key = .ok (trail ++ [key]) :=
      enter_eq_ok_iff.mpr ⟨fun k hk he => htrail k hk (he ▸ hleads _ .refl), rfl⟩
    refine baseWith_eq_ok.mpr ⟨key, hkey, _, henter, load_eq_ok.mpr ⟨m, base, rfl, hbase, ?_, ho⟩⟩
    refine ih m (Nat.lt_succ_self m) hbelow fun k hk hbelow => ?_
    have hpath := hbelow.edge hbase
    rcases List.mem_append.mp hk with hk | hk
    · exact htrail k hk (hleads _ hpath.to_reflTransGen)
    · cases List.mem_singleton.mp hk
      exact hacyclic _ (hleads _ .refl) hpath

/-! ### Finitely many targets -/

/-- The catalogue of some targets, each with the file that declares it. References spell files out. -/
def ofTargets (targets : List (Location × TargetDecl)) : Catalogue where
  declaration file name :=
    .ok ((targets.find? fun e => e.1.same file && e.2.name == some name).map Prod.snd)
  locate _ reference := .ok ⟨reference⟩
  declaration_congr name h := by simp only [Location.same, h]
  locate_congr _ h := ⟨_, h, rfl⟩

end Catalogue

end Inheritance

end Bitpress
