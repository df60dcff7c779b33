import Bitpress.Proofs.Course
import Bitpress.Proofs.Fault
import Bitpress.Proofs.Inheritance.Memo
import Bitpress.Proofs.Location
import Bitpress.Proofs.Trail

/-!
Resolving targets whose declarations have to be fetched.

A source that loads registries may fail where the catalogue would answer, and what
it answers may change the state of the source. A `Supply` says what is left: an
answer that is given is that of the catalogue, and only targets that others name
are asked for. Then the trail runs out of targets before the room runs out, and a
spec that is given is what inheritance gives (`specOf_comes`).
-/

namespace Bitpress.Inheritance

variable {σ : Type} {α β : Type}

/-- A step on the visit and the source together. -/
def Step.whole (x : Step (StateM σ) α) : ExceptT Error (StateM (Visit × σ)) α :=
  ExceptT.mk fun t => ((x.at t.1 t.2).1.1, (x.at t.1 t.2).1.2, (x.at t.1 t.2).2)

theorem Step.effect_whole (x : Step (StateM σ) α) (v : Visit) (s : σ) :
    effect x.whole (v, s) = ((x.at v s).1.1, (x.at v s).1.2, (x.at v s).2) := rfl

theorem Step.effect_whole_bind (x : Step (StateM σ) α) (f : α → Step (StateM σ) β) (t : Visit × σ) :
    effect (x >>= f).whole t = effect (x.whole >>= fun a => (f a).whole) t := by
  obtain ⟨v, s⟩ := t
  rw [effect_whole, at_bind, effect_bind, effect_whole]
  rcases x.at v s with ⟨⟨_ | a, v'⟩, s'⟩ <;> rfl

/-- What a source of targets provides: to targets that are `asked` for the answers of a catalogue, unless it
fails. Of these targets, the declared ones are among the keys. -/
structure Supply (source : TargetSource (StateM σ)) (c : Catalogue) (C : Course σ) (asked : TargetKey → Prop)
    (keys : List (List Location.Part × String)) : Prop where
  plain : ∀ e, e.Plain → C.err e
  cycle : ∀ chain, C.err (.reference (.targetCycle chain))
  missing : ∀ target base file, C.err (.reference (.missingBase target base file))
  declaration : ∀ s k, C.inv s → asked k →
    Comes C (source.declaration k.file k.name) s fun found _ => c.declaration k.file k.name = .ok found
  locate : ∀ s file reference, C.inv s → file.Canonical →
    Comes C (source.locate file reference) s fun p _ => c.locate file reference = .ok p
  warn : ∀ s ws, C.inv s → C.inv (StateT.run (source.warn ws) s).2 ∧ C.le s (StateT.run (source.warn ws) s).2
  canonical : ∀ k, asked k → k.file.Canonical
  below : ∀ k k', asked k → c.Names k k' → asked k'
  within : ∀ k d, asked k → c.declaration k.file k.name = .ok (some d) → k.identity ∈ keys

/-- Steps with some targets on the trail, and bases in the memo that resolve. -/
def tracing (C : Course σ) (c : Catalogue) (trail : List TargetKey) : Course (Visit × σ) where
  inv t := t.1.trail = trail ∧ Sound c t.1.memo ∧ C.inv t.2
  le t u := C.le t.2 u.2
  err := C.err
  refl t := C.refl t.2
  trans := C.trans

variable {source : TargetSource (StateM σ)} {c : Catalogue} {C : Course σ} {asked : TargetKey → Prop}
  {keys : List (List Location.Part × String)} {trail : List TargetKey} {t : Visit × σ} {file : Location}
  {d : TargetDecl} {key : TargetKey}

theorem whole_bind {x : Step (StateM σ) α} {f : α → Step (StateM σ) β} {D : Course (Visit × σ)}
    {post : α → Visit × σ → Prop} {post' : β → Visit × σ → Prop} (hx : Comes D x.whole t post)
    (hf : ∀ a u, D.inv u → D.le t u → post a u → Comes D (f a).whole u post') : Comes D (x >>= f).whole t post' :=
  .congr (Step.effect_whole_bind x f t) (hx.bind hf)

theorem ask_comes {x : ExceptT Error (StateM σ) α} {post : α → Prop} (ht : (tracing C c trail).inv t)
    (hx : Comes C x t.2 fun a _ => post a) : Comes (tracing C c trail) (ask x).whole t fun a _ => post a := by
  refine ⟨fun a u h => ?_, fun e u h => ?_⟩
  all_goals
    rcases hrun : effect x t.2 with ⟨r, s⟩
    have hwhole : effect (ask x).whole t = (r, t.1, s) := by
      rw [Step.effect_whole, Step.at_ask, show StateT.run x.run t.2 = (r, s) from hrun]
    cases hwhole.symm.trans h
  · obtain ⟨hinv, hle, hpost⟩ := hx.ok a s hrun
    exact ⟨⟨ht.1, ht.2.1, hinv⟩, hle, hpost⟩
  · exact hx.error e s hrun

theorem ofOutcome_comes {r : Outcome α} (ht : (tracing C c trail).inv t) (hr : Outcome.Fails C.err r) :
    Comes (tracing C c trail) (ofOutcome r : Step (StateM σ) α).whole t fun a _ => r = .ok a :=
  .of_effect (Step.effect_whole _ _ _) (fun _ ha => ⟨ht, C.refl t.2, ha⟩) hr

variable (hs : Supply source c C asked keys)

include hs

/-- A step with one more target on the trail, which is not there yet. -/
theorem visiting_comes {x : Step (StateM σ) α} {post : α → Prop} (ht : (tracing C c trail).inv t)
    (hx : (∀ k ∈ trail, k.identity ≠ key.identity) → ∀ u, (tracing C c (trail ++ [key])).inv u →
      Comes (tracing C c (trail ++ [key])) x.whole u fun a _ => post a) :
    Comes (tracing C c trail) (visiting key x).whole t fun a _ => post a := by
  obtain ⟨v, s⟩ := t
  obtain ⟨rfl, hmemo, hinv⟩ := ht
  cases henter : enter v.trail key with
  | error e =>
    refine .of_effect (by rw [Step.effect_whole, Step.at_visiting, henter]) (fun a ha => by cases ha) fun e' he => ?_
    cases he
    unfold enter at henter
    split at henter
    · cases henter
      exact hs.cycle _
    · cases henter
  | ok longer =>
    obtain ⟨hnew, rfl⟩ := Catalogue.enter_eq_ok_iff.mp henter
    have hcomes := hx hnew ({ v with trail := v.trail ++ [key] }, s) ⟨rfl, hmemo, hinv⟩
    refine .of_effect (by rw [Step.effect_whole, Step.at_visiting, henter]) (fun a ha => ?_) fun e he => ?_
    · obtain ⟨⟨htrail, hmemo', hinv'⟩, hle, hpost⟩ := hcomes.ok a _ (Prod.ext ha rfl)
      refine ⟨⟨?_, hmemo', hinv'⟩, hle, hpost⟩
      show List.dropLast _ = v.trail
      rw [show (x.at { v with trail := v.trail ++ [key] } s).1.2.trail = v.trail ++ [key] from htrail,
        List.dropLast_concat]
    · exact hcomes.error e _ (Prod.ext he rfl)

/-- A base is recalled, or resolved while it is on the trail. -/
theorem lookUp_comes {load : TargetKey → Step (StateM σ) Resolved} (ht : (tracing C c trail).inv t)
    (hload : (∀ k ∈ trail, k.identity ≠ key.identity) → ∀ u, (tracing C c (trail ++ [key])).inv u →
      Comes (tracing C c (trail ++ [key])) (load key).whole u fun b _ => ∃ n, c.Yields n key b) :
    Comes (tracing C c trail) (lookUp load key).whole t fun b _ => ∃ n, c.Yields n key b := by
  have hget : Comes (tracing C c trail) (getThe Visit : Step (StateM σ) Visit).whole t fun v u => v = t.1 ∧ u = t :=
    .of_effect (Step.effect_whole _ _ _) (fun v hv => by cases hv; exact ⟨ht, C.refl t.2, rfl, rfl⟩) fun e he => by
      cases he
  refine whole_bind hget ?_
  · intro v u hu _ hvu
    obtain ⟨rfl, rfl⟩ := hvu
    cases hfind : u.1.memo.find? key with
    | some b =>
      obtain ⟨e, hfound, rfl⟩ := Option.map_eq_some_iff.mp hfind
      obtain ⟨n, hyields⟩ := hu.2.1 e (List.mem_of_find?_eq_some hfound)
      have hid : e.1.identity = key.identity := TargetKey.same_iff.mp (by simpa using List.find?_some hfound)
      exact .pure hu ⟨n, hyields.congr hid⟩
    | none =>
      refine whole_bind (visiting_comes hs hu hload) fun b u hu _ hb => ?_
      have hsound : Sound c ((key, b) :: u.1.memo) := fun e he => by
        rcases List.mem_cons.mp he with rfl | he
        · exact hb
        · exact hu.2.1 e he
      have hkeep : Comes.Safe (tracing C c trail) (modifyThe Visit fun v =>
          { v with memo := (key, b) :: v.memo } : Step (StateM σ) PUnit).whole u :=
        .of_effect (Step.effect_whole _ _ _) (fun _ _ => ⟨⟨hu.1, hsound, hu.2.2⟩, C.refl u.2, trivial⟩) fun e he => by
          cases he
      exact whole_bind hkeep fun _ u hu _ _ => .pure hu hb

/-- A reference means a target. -/
theorem keyOf_comes (ht : (tracing C c trail).inv t) (hfile : file.Canonical) (reference : String) :
    Comes (tracing C c trail) (keyOf source file reference).whole t fun key _ => c.keyOf file reference = .ok key := by
  unfold keyOf Catalogue.keyOf
  rcases splitReference reference with ⟨other, name⟩
  cases other with
  | none => exact .pure ht rfl
  | some other =>
    refine whole_bind (ask_comes ht (hs.locate t.2 file other ht.2.2 hfile)) fun p u hu _ hp => .pure hu ?_
    show (do return (⟨← c.locate file other, name⟩ : TargetKey)) = _
    rw [hp]
    rfl

/-- The bases of a target declared in a file can be resolved with some targets on the trail. -/
def Loads (c : Catalogue) (C : Course σ) (load : String → TargetKey → Step (StateM σ) Resolved)
    (trail : List TargetKey) (file : Location) (d : TargetDecl) : Prop :=
  ∀ r ∈ d.bases, ∀ key, c.keyOf file r = .ok key → (∀ k ∈ trail, k.identity ≠ key.identity) →
    ∀ u, (tracing C c (trail ++ [key])).inv u →
      Comes (tracing C c (trail ++ [key])) (load r key).whole u fun b _ => ∃ n, c.Yields n key b

variable {load : String → TargetKey → Step (StateM σ) Resolved}

theorem baseOf_comes (hfile : file.Canonical) (hload : Loads c C load trail file d) {reference : String}
    (hr : reference ∈ d.bases) (ht : (tracing C c trail).inv t) :
    Comes (tracing C c trail) (baseOf source load file reference).whole t fun b _ =>
      Settles (fun m => c.baseWith Catalogue.anyway (c.load Catalogue.anyway m d) [] file reference) (.ok b) := by
  refine whole_bind (keyOf_comes hs ht hfile reference) fun key u hu _ hkey => ?_
  refine (lookUp_comes hs hu (hload reference hr key hkey)).imp fun b _ _ _ hb => ?_
  obtain ⟨n, hyields⟩ := hb
  exact Catalogue.baseWith_of_yields hkey hyields

/-- The bases of a target, merged one after the other. -/
theorem bases_comes (hfile : file.Canonical) (hload : Loads c C load trail file d) {references : List String}
    (href : ∀ r ∈ references, r ∈ d.bases) (ht : (tracing C c trail).inv t) (tree : Tree) :
    Comes (tracing C c trail) (references.foldlM (fun tree r => do
        let base ← baseOf source load file r
        ofOutcome (mergeBase tree base)) tree : Step (StateM σ) Tree).whole t fun merged _ =>
      Settles (fun m => references.foldlM (fun tree r => do
        mergeBase tree (← c.baseWith Catalogue.anyway (c.load Catalogue.anyway m d) [] file r)) tree) (.ok merged) := by
  induction references generalizing t tree with
  | nil => exact .pure ht ⟨0, fun _ _ => rfl⟩
  | cons r rest ih =>
    obtain ⟨hr, hrest⟩ := List.forall_mem_cons.mp href
    simp only [List.foldlM_cons, bind_assoc]
    refine whole_bind (baseOf_comes hs hfile hload hr ht) fun b u hu _ hb => ?_
    refine whole_bind (ofOutcome_comes hu fun e he => hs.plain e (mergeBase_fails _ _ e he)) fun next u hu _ hnext => ?_
    refine (ih hrest hu next).imp fun merged _ _ _ hmerged => ?_
    obtain ⟨n, hn⟩ := hb
    obtain ⟨n', hn'⟩ := hmerged
    refine ⟨max n n', fun m hm => ?_⟩
    simp only [hn m (by omega), bind, Except.bind, hnext]
    exact hn' m (by omega)

theorem foldOver_comes (hfile : file.Canonical) (hload : Loads c C load trail file d)
    (ht : (tracing C c trail).inv t) :
    Comes (tracing C c trail) (foldOver source load file d).whole t fun tree _ => ∃ n, c.tree n file d = .ok tree := by
  refine whole_bind (bases_comes hs hfile hload (fun _ h => h) ht _) fun merged u hu _ hmerged => ?_
  have hnote : Comes.Safe (tracing C c trail) (note source (legacyWarnings d)).whole u := by
    have hwarn := hs.warn u.2 (legacyWarnings d) hu.2.2
    exact .of_effect (Step.effect_whole _ _ _) (fun _ _ => ⟨⟨hu.1, hu.2.1, hwarn.1⟩, hwarn.2, trivial⟩) fun e he => by
      cases he
  refine whole_bind hnote fun _ u hu _ _ => ?_
  refine (ofOutcome_comes hu fun e he => hs.plain e (mergeOwn_fails d merged e he)).imp fun tree _ _ _ htree => ?_
  obtain ⟨n, hn⟩ := hmerged
  refine ⟨n, ?_⟩
  rw [Catalogue.tree, Catalogue.foldWith_eq]
  exact Outcome.bind_eq_ok.mpr ⟨merged, hn n (Nat.le_refl n), htree⟩

/-- The bases of a target are asked for. -/
def Asks (c : Catalogue) (asked : TargetKey → Prop) (file : Location) (d : TargetDecl) : Prop :=
  ∀ r ∈ d.bases, ∀ key, c.keyOf file r = .ok key → asked key

/-- Merging a target comes to what it is merged to without a trail. The targets on the trail are all declared,
so that there is always room for another one. -/
theorem fold_comes {room : Nat} (hfile : file.Canonical) (hasks : Asks c asked file d)
    (htrail : Trail (fun _ _ => True) TargetKey.identity trail) (hkeys : ∀ k ∈ trail, k.identity ∈ keys)
    (hroom : keys.length < room + trail.length) (ht : (tracing C c trail).inv t) :
    Comes (tracing C c trail) (fold source room file d).whole t fun tree _ => ∃ n, c.tree n file d = .ok tree := by
  induction room generalizing trail file d t with
  | zero => exact absurd (htrail.length_le hkeys) (by omega)
  | succ room ih =>
    refine foldOver_comes hs hfile (fun r hr key hkey hnew u hu => ?_) ht
    have hkeyAsked := hasks r hr key hkey
    refine whole_bind (ask_comes hu (hs.declaration u.2 key hu.2.2 hkeyAsked)) fun found u hu _ hfound => ?_
    cases found with
    | none => exact .throw (hs.missing _ _ _)
    | some base =>
      have hbelow : Asks c asked key.file base := fun r' hr' key' hkey' =>
        hs.below key key' hkeyAsked ⟨base, r', hfound, hr', hkey'⟩
      refine whole_bind (ih (hs.canonical key hkeyAsked) hbelow (htrail.enter (fun _ _ => trivial) hnew) ?_ ?_ hu)
        fun tree u hu _ htree => ?_
      · intro k hk
        rcases List.mem_append.mp hk with hk | hk
        · exact hkeys k hk
        · rw [List.mem_singleton.mp hk]
          exact hs.within key base hkeyAsked hfound
      · rw [List.length_append, List.length_singleton]
        omega
      · obtain ⟨n, hn⟩ := htree
        exact .pure hu ⟨n, base, hfound, hn, rfl⟩

omit hs in
theorem whole_map {x : Step (StateM σ) α} {f : α → β} {D : Course (Visit × σ)} {post : α → Visit × σ → Prop}
    {post' : β → Visit × σ → Prop} (hx : Comes D x.whole t post)
    (hf : ∀ a u, D.inv u → post a u → post' (f a) u) : Comes D (f <$> x).whole t post' := by
  rw [map_eq_pure_bind]
  exact whole_bind hx fun a u hu _ ha => .pure hu (hf a u hu ha)

/-- What inheritance makes of a target. -/
def Catalogue.Specifies (c : Catalogue) (file : Location) (d : TargetDecl) (spec : TargetSpec) : Prop :=
  ∃ n tree merged, c.tree n file d = .ok tree ∧ OverrideDecl.applyAll d.overrides tree = .ok merged ∧
    spec = .ofTree merged

/-- A target with a name is one of the keys. -/
def Keyed (keys : List (List Location.Part × String)) (file : Location) (d : TargetDecl) : Prop :=
  ∀ name, d.name = some name → (file.parts, name) ∈ keys

theorem specOf_comes {room : Nat} (hfile : file.Canonical) (hasks : Asks c asked file d) (hkeyed : Keyed keys file d)
    (hroom : keys.length < room) (ht : (tracing C c []).inv t) :
    Comes (tracing C c []) (specOf source room file d).whole t fun spec _ => c.Specifies file d spec := by
  have hmerged : ∀ trail, Trail (fun _ _ => True) TargetKey.identity trail → (∀ k ∈ trail, k.identity ∈ keys) →
      ∀ u, (tracing C c trail).inv u → Comes (tracing C c trail) (merged source room file d).whole u fun m _ =>
        c.Specifies file d (.ofTree m) := by
    intro trail htrail hkeys u hu
    refine whole_bind (fold_comes hs hfile hasks htrail hkeys (Nat.lt_of_lt_of_le hroom (Nat.le_add_right ..)) hu)
      fun tree u hu _ htree => ?_
    obtain ⟨n, hn⟩ := htree
    refine (ofOutcome_comes hu fun e he => hs.plain e (OverrideDecl.applyAll_fails _ _ e he)).imp fun m _ _ _ hm => ?_
    exact ⟨n, tree, m, hn, hm, rfl⟩
  unfold specOf
  split
  · rename_i name hname
    have hvisit : Comes (tracing C c []) (visiting ⟨file, name⟩ (merged source room file d)).whole t fun m _ =>
        c.Specifies file d (.ofTree m) := by
      refine visiting_comes hs ht fun hnew u hu => hmerged _ (.enter .nil (fun _ _ => trivial) hnew) ?_ u hu
      intro k hk
      rw [List.mem_singleton.mp hk]
      exact hkeyed name hname
    exact whole_map hvisit fun m u _ hm => hm
  · exact whole_map (hmerged [] .nil (fun k hk => by cases hk) t ht) fun m u _ hm => hm

end Bitpress.Inheritance
