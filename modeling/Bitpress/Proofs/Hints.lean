import Bitpress.Preset
import Bitpress.Proofs.Inheritance.Cycle
import Bitpress.Proofs.Override

/-!
Merge hints that are no policies.

A hint is looked at when its part is merged, whatever the part holds. A target merges
all parts (`Inheritance.mergeOwn_cases`), so the hints of a target that resolves are
policies, and so are those of every target that it leads to
(`Inheritance.known_of_specOf`). A preset merges its queries and its compose map
(`PresetDecl.tree_of_unknown`). Its variables are merged with nothing, and so its hint
for them is looked at by nothing (`PresetDecl.tree_same_of_context`).
-/

namespace Bitpress

open Outcome

namespace MergeHints

variable {h : MergeHints} {part : Part} {word : String} {e : Error}

/-- The hint for a part is a word that is no policy. -/
structure Unknown (h : MergeHints) (part : Part) (word : String) : Prop where
  hint : (h.hint? part).map Text.trim = some word
  merge : word ≠ "merge"
  deep : word ≠ "deep"
  replace : word ≠ "replace"

/-- Every hint is a policy. -/
def Known (h : MergeHints) : Prop := ∀ part word, ¬ h.Unknown part word

theorem Unknown.policy (hu : h.Unknown part word) : h.policy part = .error (.unknownMergePolicy part.name word) := by
  obtain ⟨written, hwritten, rfl⟩ := Option.map_eq_some_iff.mp hu.hint
  unfold MergeHints.policy
  rw [hwritten]
  dsimp only
  rw [if_neg (not_or.mpr ⟨hu.merge, hu.deep⟩), if_neg hu.replace]

theorem unknown_of_policy (he : h.policy part = .error e) :
    ∃ word, h.Unknown part word ∧ e = .unknownMergePolicy part.name word := by
  unfold policy at he
  split at he
  · cases he
  · rename_i written hwritten
    dsimp only at he
    split at he
    · cases he
    · rename_i hmerge
      obtain ⟨hmerge, hdeep⟩ := not_or.mp hmerge
      split at he
      · cases he
      · rename_i hreplace
        cases he
        exact ⟨_, ⟨by rw [hwritten]; rfl, hmerge, hdeep, hreplace⟩, rfl⟩

end MergeHints

namespace Inheritance

variable {hints : MergeHints} {d : TargetDecl} {spec : Table Tree} {part : Part} {key word : String} {value t : Tree}
  {e : Error} {base : String → Outcome Resolved}

/-! ### Targets -/

theorem policyOf_name (hints : MergeHints) (part : Part) : policyOf hints part.name = hints.policy part := by
  cases part <;> rfl

/-- What has no policy has no hint that could be wrong. -/
theorem policyOf_error (h : policyOf hints key = .error e) :
    ∃ part : Part, key = part.name ∧ hints.policy part = .error e := by
  unfold policyOf at h
  split at h
  · exact ⟨.context, rfl, h⟩
  · exact ⟨.queries, rfl, h⟩
  · exact ⟨.compose, rfl, h⟩
  · cases h

theorem mergePart_error (h : mergePart hints spec key value = .error e) : policyOf hints key = .error e := by
  rcases bind_eq_error.mp h with h | ⟨policy, _, h⟩
  · exact h
  · split at h <;> cases h

/-- The parts of a target are merged if all its hints are policies; the error is about one that is none. -/
theorem mergeOwn_cases (d : TargetDecl) (spec : Table Tree) :
    d.merge.Known ∧ (∃ made, mergeOwn d (.map spec) = .ok (.map made)) ∨
      ∃ part word, d.merge.Unknown part word ∧
        mergeOwn d (.map spec) = .error (.unknownMergePolicy part.name word) := by
  unfold mergeOwn
  dsimp only
  cases hfold : (TargetSpec.ofDecl d).toTable.foldlM (fun acc e => mergePart d.merge acc e.1 e.2) spec with
  | error e =>
    obtain ⟨entry, _, acc, hstep⟩ := exists_error_of_foldlM hfold
    obtain ⟨part, _, hpolicy⟩ := policyOf_error (mergePart_error hstep)
    obtain ⟨word, hu, rfl⟩ := MergeHints.unknown_of_policy hpolicy
    exact .inr ⟨part, word, hu, rfl⟩
  | ok made =>
    refine .inl ⟨fun part word hu => ?_, made, rfl⟩
    have hkey : part.name ∈ (TargetSpec.ofDecl d).toTable.keyList := by
      simp only [TargetSpec.toTable, Table.keyList, List.map_append, List.mem_append]
      cases part <;> simp [Part.name]
    obtain ⟨entry, hmem, hname⟩ := List.mem_map.mp hkey
    obtain ⟨acc, next, hstep⟩ := exists_ok_of_foldlM hfold entry hmem
    obtain ⟨policy, hpolicy, _⟩ := bind_eq_ok.mp hstep
    rw [hname, policyOf_name, hu.policy] at hpolicy
    cases hpolicy

/-- Bases that are maps are merged to a map. -/
theorem map_of_mergeBases {bases : List String}
    (hbase : ∀ r ∈ bases, ∀ b, base r = .ok b → ∃ spec, b.tree = .map spec)
    (h : bases.foldlM (fun tree reference => do mergeBase tree (← base reference)) (TargetSpec.toTree {}) = .ok t) :
    ∃ spec : Table Tree, t = .map spec := by
  refine foldlM_keeps (q := fun t : Tree => ∃ spec : Table Tree, t = .map spec) (fun r hr acc next hacc hstep => ?_)
    ⟨_, rfl⟩ h
  obtain ⟨spec, rfl⟩ := hacc
  obtain ⟨b, hb, hmerge⟩ := bind_eq_ok.mp hstep
  obtain ⟨above, habove⟩ := hbase r hr b hb
  unfold mergeBase at hmerge
  rw [habove, Tree.merge_map] at hmerge
  exact OverrideDecl.applyAll_map hmerge

/-- A target whose bases are maps is one, and its hints are policies. -/
theorem known_of_mergeAll (hbase : ∀ r ∈ d.bases, ∀ b, base r = .ok b → ∃ spec, b.tree = .map spec)
    (h : mergeAll base d = .ok t) : d.merge.Known ∧ ∃ made : Table Tree, t = .map made := by
  obtain ⟨bases, hbases, hown⟩ := bind_eq_ok.mp h
  obtain ⟨spec, rfl⟩ := map_of_mergeBases hbase hbases
  rcases mergeOwn_cases d spec with ⟨hknown, made, hmade⟩ | ⟨part, word, _, hfails⟩
  · cases hown.symm.trans hmade
    exact ⟨hknown, made, rfl⟩
  · cases hown.symm.trans hfails

/-- A target that would be merged without its hints fails because of one that is no policy, if there is one. -/
theorem mergeAll_of_unknown (hbase : ∀ r ∈ d.bases, ∀ b, base r = .ok b → ∃ spec, b.tree = .map spec)
    (hu : ¬ d.merge.Known) (h : mergeAll base { d with merge := {} } = .ok t) :
    ∃ part word, d.merge.Unknown part word ∧ mergeAll base d = .error (.unknownMergePolicy part.name word) := by
  obtain ⟨bases, hbases, _⟩ := bind_eq_ok.mp h
  obtain ⟨spec, rfl⟩ := map_of_mergeBases hbase hbases
  rcases mergeOwn_cases d spec with ⟨hknown, _⟩ | ⟨part, word, hword, hfails⟩
  · exact absurd hknown hu
  · exact ⟨part, word, hword, bind_eq_error.mpr (.inr ⟨_, hbases, hfails⟩)⟩

namespace Catalogue

variable {c : Catalogue} {allow : List TargetKey → TargetKey → Outcome (List TargetKey)} {room n : Nat}
  {trail : List TargetKey} {file : Location} {reference : String} {b : Resolved}

theorem known_of_foldWith (h : c.foldWith allow room trail file d = .ok t) :
    d.merge.Known ∧ ∃ made : Table Tree, t = .map made := by
  induction room using Nat.strongRecOn generalizing trail file d t with
  | _ room ih =>
    rw [foldWith_eq] at h
    refine known_of_mergeAll (fun r _ b hb => ?_) h
    obtain ⟨key, _, longer, _, hload⟩ := baseWith_eq_ok.mp hb
    obtain ⟨m, declared, rfl, _, hfold, _⟩ := load_eq_ok.mp hload
    exact (ih m (Nat.lt_succ_self m) hfold).2

theorem map_of_baseWith (h : c.baseWith allow (c.load allow room d) trail file reference = .ok b) :
    ∃ spec : Table Tree, b.tree = .map spec := by
  obtain ⟨key, _, longer, _, hload⟩ := baseWith_eq_ok.mp h
  obtain ⟨m, declared, rfl, _, hfold, _⟩ := load_eq_ok.mp hload
  exact (known_of_foldWith hfold).2

/-- The hints of a target that resolves are policies, and so are those of all targets that it leads to. -/
theorem known_of_tree (h : c.tree n file d = .ok t) : d.merge.Known ∧ ∀ (key : TargetKey) declared,
    c.Leads file d key.identity → c.declaration key.file key.name = .ok (some declared) → declared.merge.Known := by
  refine ⟨(known_of_foldWith h).1, ?_⟩
  rintro key declared ⟨r, hr, k, hkey, hpath⟩ hdeclared
  obtain ⟨m, k', b, rfl, hkey', hyields⟩ := yields_of_tree h hr
  cases hkey.symm.trans hkey'
  obtain ⟨m', key', b', hid, base, hbase, htree, _⟩ := hyields.below hpath
  rw [declaration_congr_key hid, hdeclared] at hbase
  cases hbase
  exact (known_of_foldWith htree).1

/-- A target that would resolve without its hints fails because of one that is no policy, if there is one. -/
theorem specOf_of_unknown {spec : TargetSpec} (hu : ¬ d.merge.Known)
    (h : c.specOf room file { d with merge := {} } = .ok spec) :
    ∃ part word, d.merge.Unknown part word ∧ c.specOf room file d = .error (.unknownMergePolicy part.name word) := by
  obtain ⟨t, ht⟩ := fold_of_specOf h
  have hload : c.load enter room { d with merge := {} } = c.load enter room d := by cases room <;> rfl
  rw [fold, foldWith_eq, hload] at ht
  obtain ⟨part, word, hword, hfails⟩ := mergeAll_of_unknown (d := d) (fun r _ b hb => map_of_baseWith hb) hu ht
  refine ⟨part, word, hword, ?_⟩
  have hfold : c.fold room (start file d) file d = .error (.unknownMergePolicy part.name word) :=
    foldWith_eq.trans hfails
  rw [specOf, merged, hfold]
  rfl

end Catalogue

section Resolver
variable {σ : Type} {c : Catalogue} {ready : σ → Prop} {source : TargetSource (StateM σ)} {v : Visit} {s : σ}
  {file : Location} {spec : TargetSpec} {room : Nat}

/-- **A target with a merge hint that is no policy does not resolve**, nor does any target that leads to it, whatever
their parts hold. -/
theorem known_of_specOf (ha : Answers source c ready) (h : Reached source c ready v s) (hd : Declared c file d)
    (hspec : ((specOf source room file d).at v s).1.1 = .ok spec) :
    d.merge.Known ∧ ∀ (key : TargetKey) declared, c.Leads file d key.identity →
      c.declaration key.file key.name = .ok (some declared) → declared.merge.Known := by
  obtain ⟨n, hn⟩ := (h.fits ha hd room).settles trivial (by rw [hspec]; simp)
  obtain ⟨t, ht⟩ := Catalogue.fold_of_specOf ((hn n (Nat.le_refl n)).trans hspec)
  exact Catalogue.known_of_tree (Catalogue.tree_of_fold ht)

/-- The error says so, unless the target would fail without its hints as well. -/
theorem specOf_of_unknown (ha : Answers source c ready) (h : Reached source c ready v s) (hd : Declared c file d)
    (hu : ¬ d.merge.Known) (hspec : c.specOf room file { d with merge := {} } = .ok spec) :
    ∃ part word, d.merge.Unknown part word ∧
      ((specOf source room file d).at v s).1.1 = .error (.unknownMergePolicy part.name word) := by
  obtain ⟨part, word, hword, hfails⟩ := Catalogue.specOf_of_unknown hu hspec
  exact ⟨part, word, hword, ((h.fits ha hd room).same trivial (by rw [hfails]; simp)).trans hfails⟩

end Resolver

end Inheritance

/-! ### Presets -/

namespace PresetDecl

variable {p : PresetDecl} {part : Part} {word : String}

theorem laidOver_of_unknown (h : p.merge.Unknown part word) (base own : Table Tree) :
    p.laidOver part base own = .error (.unknownMergePolicy part.name word) := by
  unfold laidOver
  rw [h.policy]
  rfl

theorem unknown_of_laidOver {base own : Table Tree} {e : Error} (h : p.laidOver part base own = .error e) :
    ∃ word, p.merge.Unknown part word ∧ e = .unknownMergePolicy part.name word := by
  rcases bind_eq_error.mp h with hpolicy | ⟨policy, _, h⟩
  · exact MergeHints.unknown_of_policy hpolicy
  · cases policy <;> cases h

/-- **A preset with a hint for its queries or its compose map that is no policy has no tree**, whatever it holds. -/
theorem tree_of_unknown (b : Bit) (h : p.merge.Unknown part word) (hpart : part ≠ .context) :
    ∃ part word, p.merge.Unknown part word ∧ p.tree b = .error (.unknownMergePolicy part.name word) := by
  cases part with
  | context => exact absurd rfl hpart
  | queries => exact ⟨.queries, word, h, bind_eq_error.mpr (.inl (laidOver_of_unknown h _ _))⟩
  | compose =>
    cases hqueries : p.laidOver .queries b.defaults.queries p.queries with
    | error e =>
      obtain ⟨word, hword, rfl⟩ := unknown_of_laidOver hqueries
      exact ⟨.queries, word, hword, bind_eq_error.mpr (.inl hqueries)⟩
    | ok queries =>
      have hcompose := laidOver_of_unknown h b.defaults.compose p.compose
      exact ⟨.compose, word, h, bind_eq_error.mpr (.inr ⟨queries, hqueries, bind_eq_error.mpr (.inl hcompose)⟩)⟩

/-- **Nothing reads the hint of a preset for its variables**, whether it is a policy or not. -/
theorem tree_same_of_context (b : Bit) (p : PresetDecl) (hint : Option String) :
    ({ p with merge := { p.merge with context := hint } } : PresetDecl).tree b = p.tree b := rfl

/-- A hint that is no policy, and a tree all the same. -/
example (b : Bit) : let p : PresetDecl := { context := [("a", .int 1)], merge := { context := some "append" } }
    p.merge.Unknown .context "append" ∧ ∃ t, p.tree b = .ok t :=
  ⟨⟨by decide, by decide, by decide, by decide⟩, _, rfl⟩

end PresetDecl

end Bitpress
