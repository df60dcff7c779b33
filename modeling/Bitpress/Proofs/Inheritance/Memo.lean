import Bitpress.Proofs.Inheritance.Catalogue

/-!
The memo of a resolver changes nothing.

A source that answers as a catalogue (`Answers`) is asked by a resolver that may
have resolved, or failed to resolve, other targets before (`Reached`). What the
memo then holds are bases that resolve (`Sound`), and those lie on no cycle, so
the trail of the resolver holds nothing that they lead to. `fold_meets` says that
merging a target keeps this and gives what the catalogue alone gives;
`specOf_eq_fresh` is the same for whole targets.
-/

namespace Bitpress.Inheritance

variable {σ : Type} {α β : Type}

/-- What a step gives and leaves, from a visit and a state of the source. -/
def Step.at (x : Step (StateM σ) α) (v : Visit) (s : σ) : (Outcome α × Visit) × σ :=
  StateT.run (StateT.run (ExceptT.run x) v) s

section At
variable {v : Visit} {s : σ}

theorem Step.at_pure (a : α) : (pure a : Step (StateM σ) α).at v s = ((.ok a, v), s) := rfl

theorem Step.at_bind (x : Step (StateM σ) α) (f : α → Step (StateM σ) β) :
    (x >>= f).at v s = match x.at v s with
      | ((.ok a, v'), s') => (f a).at v' s'
      | ((.error e, v'), s') => ((.error e, v'), s') := by
  unfold Step.at ExceptT.run StateT.run
  simp only [bind, ExceptT.bind, ExceptT.mk, StateT.bind]
  rcases x v s with ⟨⟨r, v'⟩, s'⟩
  cases r <;> rfl

theorem Step.at_ask (x : ExceptT Error (StateM σ) α) :
    (ask x).at v s = (((StateT.run x.run s).1, v), (StateT.run x.run s).2) := rfl

theorem Step.at_get : (getThe Visit : Step (StateM σ) Visit).at v s = ((.ok v, v), s) := rfl

theorem Step.at_modify (f : Visit → Visit) :
    (modifyThe Visit f : Step (StateM σ) PUnit).at v s = ((.ok ⟨⟩, f v), s) := rfl

theorem Step.at_visiting (key : TargetKey) (x : Step (StateM σ) α) :
    (visiting key x).at v s = match enter v.trail key with
      | .error e => ((.error e, v), s)
      | .ok trail =>
        let out := x.at { v with trail } s
        ((out.1.1, { out.1.2 with trail := out.1.2.trail.dropLast }), out.2) := by
  unfold Step.at visiting ExceptT.run StateT.run
  simp only [ExceptT.mk]
  cases enter v.trail key <;> rfl

end At

/-! ### What a step keeps -/

/-- A source answers as a catalogue in every state that is `ready`, and stays so. -/
structure Answers (source : TargetSource (StateM σ)) (c : Catalogue) (ready : σ → Prop) : Prop where
  declaration : ∀ {s : σ} (file : Location) (name : String), ready s →
    (StateT.run (source.declaration file name).run s).1 = c.declaration file name ∧
      ready (StateT.run (source.declaration file name).run s).2
  locate : ∀ {s : σ} (file : Location) (reference : String), ready s →
    (StateT.run (source.locate file reference).run s).1 = c.locate file reference ∧
      ready (StateT.run (source.locate file reference).run s).2
  warn : ∀ {s : σ} (ws : List Warning), ready s → ready (StateT.run (source.warn ws) s).2

/-- Every base in the memo resolves to what the memo holds. -/
def Sound (c : Catalogue) (memo : Memo) : Prop := ∀ e ∈ memo, ∃ n, c.Yields n e.1 e.2

/-- With a sound memo and a ready source, a step restores the trail, keeps the memo sound and the
source ready, and gives a result that satisfies `post`. -/
def Meets (c : Catalogue) (ready : σ → Prop) (x : Step (StateM σ) α) (v : Visit)
    (post : Outcome α → Prop) : Prop :=
  ∀ s, ready s → Sound c v.memo →
    (x.at v s).1.2.trail = v.trail ∧ Sound c (x.at v s).1.2.memo ∧ ready (x.at v s).2 ∧
      post (x.at v s).1.1

section Meets
variable {c : Catalogue} {ready : σ → Prop} {v : Visit}

theorem Meets.bind {x : Step (StateM σ) α} {f : α → Step (StateM σ) β} {mid : Outcome α → Prop}
    {post : Outcome β → Prop} (hx : Meets c ready x v mid)
    (hf : ∀ a v', v'.trail = v.trail → mid (.ok a) → Meets c ready (f a) v' post)
    (he : ∀ e, mid (.error e) → post (.error e)) : Meets c ready (x >>= f) v post := by
  intro s hs hv
  obtain ⟨htrail, hmemo, hready, hmid⟩ := hx s hs hv
  rw [Step.at_bind]
  rcases h : x.at v s with ⟨⟨r, v'⟩, s'⟩
  rw [h] at htrail hmemo hready hmid
  cases r with
  | error e => exact ⟨htrail, hmemo, hready, he e hmid⟩
  | ok a =>
    obtain ⟨htrail', hrest⟩ := hf a v' htrail hmid s' hready hmemo
    exact ⟨htrail'.trans htrail, hrest⟩

theorem Meets.ofOutcome {r : Outcome α} {post : Outcome α → Prop} (h : post r) :
    Meets c ready (ofOutcome r) v post :=
  fun _ hs hv => ⟨rfl, hv, hs, h⟩

theorem Meets.pure {a : α} {post : Outcome α → Prop} (h : post (.ok a)) :
    Meets c ready (Pure.pure a) v post :=
  fun _ hs hv => ⟨rfl, hv, hs, h⟩

theorem Meets.throw {e : Error} {post : Outcome α → Prop} (h : post (.error e)) :
    Meets c ready (MonadExcept.throw e) v post :=
  fun _ hs hv => ⟨rfl, hv, hs, h⟩

/-- A step that was met with one condition is met with any that follows. -/
theorem Meets.imp {x : Step (StateM σ) α} {post post' : Outcome α → Prop} (hx : Meets c ready x v post)
    (h : ∀ r, post r → post' r) : Meets c ready x v post' := by
  intro s hs hv
  obtain ⟨htrail, hmemo, hready, hpost⟩ := hx s hs hv
  exact ⟨htrail, hmemo, hready, h _ hpost⟩

/-- The trail is as it was when a step with another target on it is over. -/
theorem Meets.visiting {key : TargetKey} {x : Step (StateM σ) α} {post : Outcome α → Prop}
    (hx : enter v.trail key = .ok (v.trail ++ [key]) →
      Meets c ready x { v with trail := v.trail ++ [key] } post)
    (he : ∀ e, enter v.trail key = .error e → post (.error e)) :
    Meets c ready (Inheritance.visiting key x) v post := by
  intro s hs hv
  rw [Step.at_visiting]
  cases h : enter v.trail key with
  | error e => exact ⟨rfl, hv, hs, he e h⟩
  | ok longer =>
    obtain ⟨_, rfl⟩ := Catalogue.enter_eq_ok_iff.mp h
    obtain ⟨htrail, hmemo, hready, hpost⟩ := hx h s hs hv
    refine ⟨?_, hmemo, hready, hpost⟩
    simp only [htrail, List.dropLast_concat]

variable {source : TargetSource (StateM σ)}

theorem declaration_meets (ha : Answers source c ready) (file : Location) (name : String) :
    Meets c ready (ask (source.declaration file name)) v (· = c.declaration file name) :=
  fun _ hs hv => ⟨rfl, hv, (ha.declaration file name hs).2, (ha.declaration file name hs).1⟩

theorem locate_meets (ha : Answers source c ready) (file : Location) (reference : String) :
    Meets c ready (ask (source.locate file reference)) v (· = c.locate file reference) :=
  fun _ hs hv => ⟨rfl, hv, (ha.locate file reference hs).2, (ha.locate file reference hs).1⟩

theorem keyOf_meets (ha : Answers source c ready) (file : Location) (reference : String) :
    Meets c ready (keyOf source file reference) v (· = c.keyOf file reference) := by
  unfold keyOf Catalogue.keyOf
  rcases splitReference reference with ⟨other, name⟩
  cases other with
  | none => exact Meets.pure rfl
  | some other =>
    refine Meets.bind (locate_meets ha file other) (fun p v' _ hp => ?_) fun e he => ?_
    · simp only [← hp]
      exact Meets.pure rfl
    · simp only [← he]
      rfl

theorem note_meets (ha : Answers source c ready) (ws : List Warning) :
    Meets c ready (note source ws) v (· = .ok ()) :=
  fun _ hs hv => ⟨rfl, hv, ha.warn ws hs, rfl⟩

end Meets

/-! ### Results -/

/-- A result that some room is enough for. -/
def Settles (plain : Nat → Outcome α) (r : Outcome α) : Prop := ∃ n, ∀ m, n ≤ m → plain m = r

theorem Settles.unique {plain : Nat → Outcome α} {r r' : Outcome α} (h : Settles plain r)
    (h' : Settles plain r') : r = r' := by
  obtain ⟨n, hn⟩ := h
  obtain ⟨n', hn'⟩ := h'
  rw [← hn (max n n') (Nat.le_max_left ..), hn' (max n n') (Nat.le_max_right ..)]

/-- A result is good if it succeeds. Under a condition, it is what `plain` gives with the same room or,
where that is not enough, with more; only a lack of room may go unnoticed. -/
structure Fits (good : α → Prop) (above : Prop) (plain : Nat → Outcome α) (room : Nat)
    (r : Outcome α) : Prop where
  good : ∀ a, r = .ok a → good a
  same : above → plain room ≠ .error .depthExceeded → r = plain room
  settles : above → r ≠ .error .depthExceeded → Settles plain r

section Fits
variable {good : α → Prop} {above : Prop} {plain : Nat → Outcome α} {room : Nat} {r : Outcome α}

/-- A result that has nothing to do with room. -/
theorem Fits.const {p : Outcome α} (h : r = p) : Fits (fun a => p = .ok a) above (fun _ => p) room r :=
  ⟨fun _ ha => h ▸ ha, fun _ _ => h, fun _ _ => ⟨0, fun _ _ => h.symm⟩⟩

theorem Fits.imp {good' : α → Prop} {above' : Prop} (h : Fits good above plain room r)
    (hgood : ∀ a, good a → good' a) (habove : above' → above) : Fits good' above' plain room r :=
  ⟨fun a ha => hgood a (h.good a ha), fun ha => h.same (habove ha), fun ha => h.settles (habove ha)⟩

/-- With one more target on the trail, one more has room. -/
theorem Fits.succ {plain' : Nat → Outcome α} (h : Fits good above plain room r)
    (heq : ∀ m, plain' (m + 1) = plain m) : Fits good above plain' (room + 1) r := by
  refine ⟨h.good, fun ha hne => ?_, fun ha hne => ?_⟩
  · rw [heq] at hne ⊢
    exact h.same ha hne
  · obtain ⟨n, hn⟩ := h.settles ha hne
    refine ⟨n + 1, fun m hm => ?_⟩
    obtain ⟨m, rfl⟩ : ∃ m', m = m' + 1 := ⟨m - 1, by omega⟩
    rw [heq]
    exact hn m (Nat.le_of_succ_le_succ hm)

variable {next : Nat → α → Outcome β} {good' : β → Prop}

theorem Fits.error {e : Error} (h : Fits good above plain room (.error e)) :
    Fits good' above (fun m => plain m >>= next m) room (.error e) := by
  refine ⟨fun _ ht => (by cases ht), fun ha hne => ?_, fun ha hne => ?_⟩
  · have hp : plain room ≠ .error .depthExceeded := fun hp => hne (by rw [hp]; rfl)
    show _ = plain room >>= next room
    rw [← h.same ha hp]
    rfl
  · obtain ⟨n, hn⟩ := h.settles ha fun he => hne (by cases he; rfl)
    exact ⟨n, fun m hm => by simp only [hn m hm]; rfl⟩

theorem Fits.bind {a : α} {r' : Outcome β} (h : Fits good above plain room (.ok a))
    (h' : Fits good' above (fun m => next m a) room r') :
    Fits good' above (fun m => plain m >>= next m) room r' := by
  refine ⟨h'.good, fun ha hne => ?_, fun ha hne => ?_⟩
  · have hp : plain room ≠ .error .depthExceeded := fun hp => hne (by rw [hp]; rfl)
    show _ = plain room >>= next room
    change plain room >>= next room ≠ _ at hne
    rw [← h.same ha hp] at hne ⊢
    exact h'.same ha hne
  · obtain ⟨n, hn⟩ := h.settles ha (by simp)
    obtain ⟨n', hn'⟩ := h'.settles ha hne
    refine ⟨max n n', fun m hm => ?_⟩
    simp only [hn m (by omega)]
    exact hn' m (by omega)

/-- Steps in a row fit what the same steps of the catalogue give. -/
theorem Meets.bind_fits {c : Catalogue} {ready : σ → Prop} {v : Visit} {x : Step (StateM σ) α}
    {f : α → Step (StateM σ) β} (hx : Meets c ready x v (Fits good above plain room))
    (hf : ∀ a v', v'.trail = v.trail → good a →
      Meets c ready (f a) v' (Fits good' above (fun m => next m a) room)) :
    Meets c ready (x >>= f) v (Fits good' above (fun m => plain m >>= next m) room) := by
  refine Meets.bind hx (fun a v' htrail hfits => ?_) fun e he => he.error
  exact (hf a v' htrail (hfits.good a rfl)).imp fun r' h' => hfits.bind h'

theorem Meets.map_fits {c : Catalogue} {ready : σ → Prop} {v : Visit} {x : Step (StateM σ) α} {f : α → β}
    (hx : Meets c ready x v (Fits good above plain room)) :
    Meets c ready (f <$> x) v (Fits (fun _ => True) above (fun m => f <$> plain m) room) := by
  simp only [map_eq_pure_bind]
  exact hx.bind_fits fun _ _ _ _ => Meets.pure ((Fits.const rfl).imp (fun _ _ => trivial) id)

end Fits

namespace Catalogue

variable {c : Catalogue} {room n : Nat} {trail : List TargetKey} {file : Location} {d : TargetDecl}
  {key : TargetKey} {reference : String} {b : Resolved}

/-- A target lies above another one, or that one does not lead to it. -/
def Over (c : Catalogue) (k key : TargetKey) : Prop :=
  Relation.TransGen c.Edge k.identity key.identity ∨ ¬ Relation.ReflTransGen c.Edge key.identity k.identity

theorem Over.edge {k key' : TargetKey} (h : c.Over k key) (he : c.Edge key.identity key'.identity) :
    c.Over k key' :=
  h.imp (fun h => .tail h he) fun h hback => h (.head he hback)

theorem Yields.not_back {k : TargetKey} (h : c.Yields n key b) (hover : c.Over k key) :
    ¬ Relation.ReflTransGen c.Edge key.identity k.identity := fun hback =>
  hover.elim (fun hdown => h.acyclic (.trans_right hback hdown)) fun hnot => hnot hback

/-- Every target on the trail lies above every base of a target, or out of its reach. -/
def Above (c : Catalogue) (trail : List TargetKey) (file : Location) (d : TargetDecl) : Prop :=
  ∀ k ∈ trail, ∀ r ∈ d.bases, ∀ key, c.keyOf file r = .ok key → c.Over k key

/-- The source gives a target for its name, or the bases of the target do not lead to that name. -/
def Free (c : Catalogue) (file : Location) (d : TargetDecl) : Prop :=
  ∀ name, d.name = some name →
    c.declaration file name = .ok (some d) ∨ ¬ c.Leads file d (file.parts, name)

theorem Above.start (h : c.Free file d) : c.Above (start file d) file d := by
  intro k hk r hr key hkey
  unfold Catalogue.start at hk
  split at hk
  · rename_i name hname
    cases List.mem_singleton.mp hk
    refine (h name hname).imp (fun hd => ?_) fun hnot hback => hnot ⟨r, hr, key, hkey, hback⟩
    exact .single ⟨⟨file, name⟩, key, rfl, rfl, d, r, hd, hr, hkey⟩
  · cases hk

theorem Above.append {base : TargetDecl} (h : ∀ k ∈ trail, c.Over k key)
    (hd : c.declaration key.file key.name = .ok (some base)) :
    c.Above (trail ++ [key]) key.file base := by
  intro k hk r hr key' hkey'
  have hedge : c.Edge key.identity key'.identity := ⟨key, key', rfl, rfl, base, r, hd, hr, hkey'⟩
  rcases List.mem_append.mp hk with hk | hk
  · exact (h k hk).edge hedge
  · cases List.mem_singleton.mp hk
    exact .inl (.single hedge)

theorem Yields.congr {k : TargetKey} (hid : k.identity = key.identity) (h : c.Yields n k b) :
    c.Yields n key b := by
  obtain ⟨base, hbase, htree, ho⟩ := h
  exact ⟨base, by rw [← declaration_congr_key hid, hbase], tree_congr (Prod.mk.inj hid).1 htree, ho⟩

/-- A base that resolves does so on any trail that lies above it, if there is room. -/
theorem settles_of_yields (h : c.Yields n key b) (habove : ∀ k ∈ trail, c.Over k key) :
    enter trail key = .ok (trail ++ [key]) ∧
      Settles (fun m => c.load enter m d (trail ++ [key]) reference key) (.ok b) := by
  refine ⟨enter_eq_ok_iff.mpr ⟨fun k hk he => h.not_back (habove k hk) (he ▸ .refl), rfl⟩, ?_⟩
  have hacyclic := h.acyclic
  have hback : ∀ k ∈ trail, ¬ Relation.ReflTransGen c.Edge key.identity k.identity := fun k hk =>
    h.not_back (habove k hk)
  obtain ⟨base, hbase, htree, ho⟩ := h
  have hfold : c.fold n (trail ++ [key]) key.file base = .ok b.tree := by
    refine fold_of_tree htree fun k hk hleads => ?_
    have hpath := hleads.edge hbase
    rcases List.mem_append.mp hk with hk | hk
    · exact hback k hk hpath.to_reflTransGen
    · cases List.mem_singleton.mp hk
      exact hacyclic hpath
  refine ⟨n + 1, fun m hm => ?_⟩
  obtain ⟨m, rfl⟩ : ∃ m', m = m' + 1 := ⟨m - 1, by omega⟩
  refine load_eq_ok.mpr ⟨m, base, rfl, hbase, ?_, ho⟩
  rw [← hfold]
  exact foldWith_of_le (Nat.le_of_succ_le_succ hm) (by rw [show c.foldWith enter n _ _ _ = _ from hfold]; simp)

/-- With more room, a base is the same unless there was too little. -/
theorem load_of_le {m : Nat} (hle : room ≤ m)
    (hne : c.load enter room d trail reference key ≠ .error .depthExceeded) :
    c.load enter m d trail reference key = c.load enter room d trail reference key := by
  cases room with
  | zero => exact absurd rfl hne
  | succ room =>
    obtain ⟨m, rfl⟩ : ∃ m', m = m' + 1 := ⟨m - 1, by omega⟩
    simp only [load, declared] at hne ⊢
    cases hfound : c.declaration key.file key.name with
    | error e => rfl
    | ok found =>
      cases found with
      | none => rfl
      | some base =>
        have hbelow : c.foldWith enter room trail key.file base ≠ .error .depthExceeded := fun he =>
          hne (by simp [hfound, he, bind, Except.bind])
        simp only [bind, Except.bind, foldWith_of_le (Nat.le_of_succ_le_succ hle) hbelow]

/-- Where a base resolves without a trail, a reference to it does, given enough room. -/
theorem baseWith_of_yields (hkey : c.keyOf file reference = .ok key) (h : c.Yields n key b) :
    Settles (fun m => c.baseWith anyway (c.load anyway m d) [] file reference) (.ok b) := by
  refine ⟨n + 1, fun m hm => ?_⟩
  obtain ⟨m, rfl⟩ : ∃ m', m = m' + 1 := ⟨m - 1, by omega⟩
  obtain ⟨base, hbase, htree, ho⟩ := h
  refine baseWith_eq_ok.mpr ⟨key, hkey, [], rfl, load_eq_ok.mpr ⟨m, base, rfl, hbase, ?_, ho⟩⟩
  rw [← htree]
  exact foldWith_of_le (Nat.le_of_succ_le_succ hm)
    (by rw [show c.foldWith anyway n [] _ _ = _ from htree]; simp)

end Catalogue

/-! ### Merging keeps the memo sound and gives what the catalogue gives -/

section Fold
variable {c : Catalogue} {ready : σ → Prop} {source : TargetSource (StateM σ)} {v : Visit} {room : Nat}
  {file : Location} {d : TargetDecl}

/-- The base of a key, on a trail with the key at its end. -/
def LoadFits (c : Catalogue) (room : Nat) (d : TargetDecl) (trail : List TargetKey) (reference : String)
    (key : TargetKey) : Outcome Resolved → Prop :=
  Fits (fun b => ∃ n, c.Yields n key b) (∀ k ∈ trail, c.Over k key)
    (fun m => c.load enter m d (trail ++ [key]) reference key) room

/-- What the catalogue gives for a key fits, if none of what it leads to is on the trail. -/
theorem fits_of_yields {trail : List TargetKey} {key : TargetKey} {reference : String} {b : Resolved} {n : Nat}
    (h : c.Yields n key b) :
    Fits (fun b => ∃ n, c.Yields n key b) (∀ k ∈ trail, c.Over k key)
      (fun m => do c.load enter m d (← enter trail key) reference key) room (.ok b) := by
  have hplain : (∀ k ∈ trail, c.Over k key) → enter trail key = .ok (trail ++ [key]) ∧
      Settles (fun m => c.load enter m d (trail ++ [key]) reference key) (.ok b) := Catalogue.settles_of_yields h
  refine ⟨fun b' hb => ?_, fun habove hne => ?_, fun habove _ => ?_⟩
  · cases hb
    exact ⟨n, h⟩
  · obtain ⟨henter, m, hm⟩ := hplain habove
    rw [henter] at hne ⊢
    rw [← hm (max m room) (Nat.le_max_left ..)]
    exact Catalogue.load_of_le (Nat.le_max_right ..) hne
  · obtain ⟨henter, hsettles⟩ := hplain habove
    rw [henter]
    exact hsettles

theorem lookUp_meets {load : TargetKey → Step (StateM σ) Resolved} {key : TargetKey} {reference : String}
    (hload : Meets c ready (load key) { v with trail := v.trail ++ [key] }
      (LoadFits c room d v.trail reference key)) :
    Meets c ready (lookUp load key) v
      (Fits (fun b => ∃ n, c.Yields n key b)
        (∀ k ∈ v.trail, c.Over k key)
        (fun m => do c.load enter m d (← enter v.trail key) reference key) room) := by
  intro s hs hv
  unfold lookUp
  rw [Step.at_bind, Step.at_get]
  cases hfind : v.memo.find? key with
  | some b =>
    -- The memo is asked before the trail: what it holds must be on no cycle through the trail.
    simp only [hfind, Step.at_pure, true_and]
    obtain ⟨e, hfound, rfl⟩ := Option.map_eq_some_iff.mp hfind
    obtain ⟨n, hyields⟩ := hv e (List.mem_of_find?_eq_some hfound)
    have hid : e.1.identity = key.identity :=
      TargetKey.same_iff.mp (by simpa using List.find?_some hfound)
    exact ⟨hv, hs, fits_of_yields (hyields.congr hid)⟩
  | none =>
    simp only [hfind]
    refine Meets.bind (Meets.visiting ?_ ?_) ?_ (fun e h => h) s hs hv
    · intro henter
      refine hload.imp fun r hr => ?_
      rw [henter]
      exact hr
    · intro e he
      rw [he]
      exact ⟨fun _ hb => (by cases hb), fun _ _ => rfl, fun _ _ => ⟨0, fun _ _ => rfl⟩⟩
    · intro b v' htrail hfits s hs hv'
      rw [Step.at_bind, Step.at_modify]
      refine ⟨rfl, fun e he => ?_, hs, hfits⟩
      rcases List.mem_cons.mp he with rfl | he
      · exact hfits.good b rfl
      · exact hv' e he

/-- One base: found by its reference, then recalled or resolved. -/
theorem baseOf_meets (ha : Answers source c ready) {load : String → TargetKey → Step (StateM σ) Resolved}
    {reference : String} (hr : reference ∈ d.bases)
    (hload : ∀ key v', v'.trail = v.trail ++ [key] →
      Meets c ready (load reference key) v' (LoadFits c room d v.trail reference key)) :
    Meets c ready (baseOf source load file reference) v
      (Fits (fun b => Settles (fun m => c.baseWith Catalogue.anyway (c.load Catalogue.anyway m d) [] file
          reference) (.ok b))
        (c.Above v.trail file d) (fun m => c.baseWith enter (c.load enter m d) v.trail file reference)
        room) := by
  refine Meets.bind_fits ((keyOf_meets ha file reference).imp fun _ h => Fits.const h) ?_
  intro key v' htrail hkey
  have hrecall : Meets c ready (lookUp (load reference) key) v' _ := lookUp_meets (by
    rw [htrail]
    exact hload key _ rfl)
  refine hrecall.imp fun r hfits => ?_
  rw [htrail] at hfits
  refine hfits.imp (fun b hb => ?_) fun habove k hk => habove k hk reference hr key hkey
  obtain ⟨n, hyields⟩ := hb
  exact Catalogue.baseWith_of_yields hkey hyields

/-- The bases of a target, merged one after the other. -/
theorem bases_meet (ha : Answers source c ready) {load : String → TargetKey → Step (StateM σ) Resolved}
    (refs : List String) (hrefs : ∀ r ∈ refs, r ∈ d.bases) (trail : List TargetKey)
    (hload : ∀ r key v', v'.trail = trail ++ [key] →
      Meets c ready (load r key) v' (LoadFits c room d trail r key))
    (v : Visit) (hv : v.trail = trail) (tree : Tree) :
    Meets c ready (refs.foldlM (fun tree r => do
        let base ← baseOf source load file r
        ofOutcome (mergeBase tree base)) tree) v
      (Fits (fun t => Settles (fun m => refs.foldlM (fun tree r => do
          mergeBase tree (← c.baseWith Catalogue.anyway (c.load Catalogue.anyway m d) [] file r)) tree) (.ok t))
        (c.Above trail file d)
        (fun m => refs.foldlM (fun tree r => do
          mergeBase tree (← c.baseWith enter (c.load enter m d) trail file r)) tree) room) := by
  induction refs generalizing v tree with
  | nil =>
    exact Meets.pure ⟨fun t ht => ⟨0, fun _ _ => ht⟩, fun _ _ => rfl, fun _ _ => ⟨0, fun _ _ => rfl⟩⟩
  | cons r rest ih =>
    subst hv
    simp only [List.foldlM_cons, bind_assoc]
    refine Meets.bind_fits (baseOf_meets ha (hrefs r (List.mem_cons_self ..)) (hload r)) ?_
    intro b v₁ h₁ hb
    refine Meets.bind_fits (Meets.ofOutcome (Fits.const rfl)) ?_
    intro tree' v₂ h₂ htree
    refine (ih (fun r' hr' => hrefs r' (List.mem_cons_of_mem r hr')) v₂ (h₂.trans h₁) tree').imp fun _ hfits => ?_
    refine hfits.imp (fun t ht => ?_) id
    obtain ⟨n, hn⟩ := hb
    obtain ⟨n', hn'⟩ := ht
    refine ⟨max n n', fun m hm => ?_⟩
    simp only [hn m (by omega), bind, Except.bind, htree]
    exact hn' m (by omega)

theorem foldOver_meets (ha : Answers source c ready) {load : String → TargetKey → Step (StateM σ) Resolved}
    (hload : ∀ r key v', v'.trail = v.trail ++ [key] →
      Meets c ready (load r key) v' (LoadFits c room d v.trail r key)) :
    Meets c ready (foldOver source load file d) v
      (Fits (fun t => ∃ n, c.tree n file d = .ok t) (c.Above v.trail file d)
        (fun m => c.fold m v.trail file d) room) := by
  simp only [Catalogue.fold, Catalogue.foldWith_eq]
  refine Meets.bind_fits (bases_meet ha d.bases (fun _ h => h) v.trail hload v rfl _) ?_
  intro tree v' _ htree
  refine Meets.bind (note_meets ha _) (fun _ v₂ _ _ => ?_) fun e he => (by cases he)
  refine Meets.ofOutcome ((Fits.const rfl).imp (fun t ht => ?_) id)
  obtain ⟨n, hn⟩ := htree
  refine ⟨n, ?_⟩
  rw [Catalogue.tree, Catalogue.foldWith_eq]
  exact Outcome.bind_eq_ok.mpr ⟨tree, hn n (Nat.le_refl n), ht⟩

/-- Merging a target gives what the catalogue alone gives, whatever the memo holds. -/
theorem fold_meets (ha : Answers source c ready) (room : Nat) (v : Visit) (file : Location) (d : TargetDecl) :
    Meets c ready (fold source room file d) v
      (Fits (fun t => ∃ n, c.tree n file d = .ok t) (c.Above v.trail file d)
        (fun m => c.fold m v.trail file d) room) := by
  induction room generalizing v file d with
  | zero =>
    exact foldOver_meets ha fun r key v' _ =>
      Meets.throw ⟨fun _ h => (by cases h), fun _ h => absurd rfl h, fun _ h => absurd rfl h⟩
  | succ room ih =>
    refine foldOver_meets ha fun r key v' hv' => ?_
    refine Meets.imp ?_ fun _ h => Fits.succ h fun m => rfl
    refine Meets.bind_fits ((declaration_meets ha key.file key.name).imp fun _ h => Fits.const h) ?_
    intro found v₁ h₁ hfound
    cases found with
    | none => exact Meets.throw ((Fits.const rfl).imp (fun _ h => (by cases h)) id)
    | some base =>
      have hbelow := ih v₁ key.file base
      rw [h₁, hv'] at hbelow
      refine Meets.bind_fits (hbelow.imp fun _ h => h.imp (fun _ ht => ht) fun habove =>
        Catalogue.Above.append habove hfound) ?_
      intro t v₂ _ ht
      refine Meets.pure ((Fits.const rfl).imp (fun b hb => ?_) id)
      cases hb
      obtain ⟨n, ht⟩ := ht
      exact ⟨n, base, hfound, ht, rfl⟩

/-! ### Whole targets -/

/-- The source gives a target for its name, if it has one. -/
def Declared (c : Catalogue) (file : Location) (d : TargetDecl) : Prop :=
  ∀ name, d.name = some name → c.declaration file name = .ok (some d)

theorem Declared.free (h : Declared c file d) : c.Free file d := fun name hname => .inl (h name hname)

theorem merged_meets (ha : Answers source c ready) (habove : c.Above v.trail file d) :
    Meets c ready (merged source room file d) v
      (Fits (fun _ => True) True (fun m => c.merged m v.trail file d) room) := by
  refine Meets.bind_fits ((fold_meets ha room v file d).imp fun _ h => h.imp (fun _ ht => ht)
    fun _ => habove) fun t _ _ _ => ?_
  exact Meets.ofOutcome ((Fits.const rfl).imp (fun _ _ => trivial) id)

/-- A target gives what the catalogue alone gives, if there is room to find that. -/
theorem specOf_meets (room : Nat) (ha : Answers source c ready) (hd : c.Free file d) (hv : v.trail = []) :
    Meets c ready (specOf source room file d) v
      (Fits (fun _ => True) True (fun m => c.specOf m file d) room) := by
  have habove := Catalogue.Above.start hd
  unfold specOf Catalogue.specOf
  unfold Catalogue.start at habove ⊢
  cases hname : d.name with
  | none =>
    have hmerged : Meets c ready (merged source room file d) v _ :=
      merged_meets ha (by rw [hv]; intro k hk; cases hk)
    rw [hv] at hmerged
    exact hmerged.map_fits
  | some name =>
    rw [hname] at habove
    have henter : enter v.trail ⟨file, name⟩ = .ok [⟨file, name⟩] := by rw [hv]; rfl
    have hmerged : Meets c ready (visiting ⟨file, name⟩ (merged source room file d)) v
        (Fits (fun _ => True) True (fun m => c.merged m [⟨file, name⟩] file d) room) := by
      refine Meets.visiting (fun _ => ?_) fun e he => (by rw [henter] at he; cases he)
      rw [hv]
      exact merged_meets ha habove
    exact hmerged.map_fits

end Fold

/-! ### A resolver with a history -/

/-- A resolver after calls for declared targets, each with whatever room it had, and the source they
left behind. -/
inductive Reached (source : TargetSource (StateM σ)) (c : Catalogue) (ready : σ → Prop) :
    Visit → σ → Prop
  | start {s : σ} : ready s → Reached source c ready {} s
  | call {v : Visit} {s : σ} (room : Nat) (file : Location) (d : TargetDecl) :
    Reached source c ready v s → Declared c file d →
      Reached source c ready ((specOf source room file d).at v s).1.2 ((specOf source room file d).at v s).2

section History
variable {c : Catalogue} {ready : σ → Prop} {source : TargetSource (StateM σ)} {v : Visit} {s s₀ : σ}
  {file : Location} {d : TargetDecl}

theorem Reached.invariant (ha : Answers source c ready) (h : Reached source c ready v s) :
    v.trail = [] ∧ Sound c v.memo ∧ ready s := by
  induction h with
  | start hs => exact ⟨rfl, fun e he => (by cases he), hs⟩
  | call room file d _ hd ih =>
    obtain ⟨hv, hmemo, hs⟩ := ih
    obtain ⟨htrail, hmemo', hs', _⟩ := specOf_meets room ha hd.free hv _ hs hmemo
    exact ⟨htrail.trans hv, hmemo', hs'⟩

/-- Whatever was resolved before, a target gives what the catalogue alone gives. -/
theorem Reached.fits_of_free (ha : Answers source c ready) (h : Reached source c ready v s) (hd : c.Free file d)
    (room : Nat) : Fits (fun _ => True) True (fun m => c.specOf m file d) room
      ((specOf source room file d).at v s).1.1 := by
  obtain ⟨hv, hmemo, hs⟩ := h.invariant ha
  obtain ⟨_, _, _, hfits⟩ := specOf_meets room ha hd hv s hs hmemo
  exact hfits

theorem Reached.fits (ha : Answers source c ready) (h : Reached source c ready v s) (hd : Declared c file d)
    (room : Nat) : Fits (fun _ => True) True (fun m => c.specOf m file d) room
      ((specOf source room file d).at v s).1.1 :=
  h.fits_of_free ha hd.free room

theorem Reached.ends_iff (ha : Answers source c ready) (h : Reached source c ready v s)
    (hd : Declared c file d) :
    (∃ room, ((specOf source room file d).at v s).1.1 ≠ .error .depthExceeded) ↔
      ∃ n, c.specOf n file d ≠ .error .depthExceeded := by
  constructor
  · rintro ⟨room, hne⟩
    obtain ⟨n, hn⟩ := (h.fits ha hd room).settles trivial hne
    exact ⟨n, fun he => hne ((hn n (Nat.le_refl n)).symm.trans he)⟩
  · rintro ⟨n, hne⟩
    exact ⟨n, fun he => hne (((h.fits ha hd n).same trivial hne).symm.trans he)⟩

/-- A resolver gives a target the spec, or the error, that a fresh resolver gives it, whatever was
resolved or failed before; it finds a result within some room if and only if a fresh one does; and its
trail is empty after the call. -/
theorem specOf_eq_fresh (ha : Answers source c ready) (h : Reached source c ready v s)
    (hd : Declared c file d) (hs₀ : ready s₀) :
    (∀ room, ((specOf source room file d).at v s).1.2.trail = []) ∧
    (∀ room room₀, ((specOf source room file d).at v s).1.1 ≠ .error .depthExceeded →
      ((specOf source room₀ file d).at {} s₀).1.1 ≠ .error .depthExceeded →
      ((specOf source room file d).at v s).1.1 = ((specOf source room₀ file d).at {} s₀).1.1) ∧
    ((∃ room, ((specOf source room file d).at v s).1.1 ≠ .error .depthExceeded) ↔
      ∃ room₀, ((specOf source room₀ file d).at {} s₀).1.1 ≠ .error .depthExceeded) := by
  have hfresh : Reached source c ready {} s₀ := .start hs₀
  refine ⟨fun room => (Reached.invariant ha (.call room file d h hd)).1, ?_,
    (h.ends_iff ha hd).trans (hfresh.ends_iff ha hd).symm⟩
  intro room room₀ hne hne₀
  exact ((h.fits ha hd room).settles trivial hne).unique ((hfresh.fits ha hd room₀).settles trivial hne₀)

end History

/-! ### A source without a state -/

def Catalogue.source (c : Catalogue) : TargetSource (StateM Unit) where
  declaration file name := ExceptT.mk (pure (c.declaration file name))
  locate file reference := ExceptT.mk (pure (c.locate file reference))
  warn _ := pure ()

theorem Catalogue.source_answers (c : Catalogue) : Answers c.source c fun _ => True :=
  ⟨fun _ _ _ => ⟨rfl, trivial⟩, fun _ _ _ => ⟨rfl, trivial⟩, fun _ _ => trivial⟩

namespace Diamond

def file : Location := ⟨"a.json"⟩

def base : TargetDecl := { name := some "base", context := [("x", .int 1)] }

/-- A target with a base that is nowhere. -/
def broken : TargetDecl := { name := some "broken", extends? := some (.many ["left", "nowhere"]) }

def left : TargetDecl := { name := some "left", extends? := some (.one "base") }

def right : TargetDecl := { name := some "right", extends? := some (.one "a.json::base") }

def top : TargetDecl := { name := some "top", extends? := some (.many ["left", "right"]) }

def targets : Catalogue :=
  .ofTargets [(file, base), (file, broken), (file, left), (file, right), (file, top)]

/-- The resolver that has failed to resolve the broken target. -/
def used : Visit := ((specOf targets.source 3 file broken).at {} ()).1.2

end Diamond

/-- What a failure has left in the memo does not show. -/
theorem specOf_eq_fresh_after_failure :
    Diamond.used.memo.length = 2 ∧
      ((specOf Diamond.targets.source 2 Diamond.file Diamond.top).at Diamond.used ()).1.1 =
        ((specOf Diamond.targets.source 3 Diamond.file Diamond.top).at {} ()).1.1 := by
  have hreached : Reached Diamond.targets.source Diamond.targets (fun _ => True) Diamond.used () :=
    .call 3 Diamond.file Diamond.broken (.start trivial) fun _ h => by cases h; rfl
  have hne : ∀ v room, (((specOf Diamond.targets.source room Diamond.file Diamond.top).at v ()).1.1.toOption).isSome →
      ((specOf Diamond.targets.source room Diamond.file Diamond.top).at v ()).1.1 ≠ .error .depthExceeded := by
    intro v room h he
    rw [he] at h
    cases h
  refine ⟨by decide +kernel, ?_⟩
  refine (specOf_eq_fresh Diamond.targets.source_answers hreached (fun _ h => by cases h; rfl) trivial).2.1 2 3
    (hne _ _ ?_) (hne _ _ ?_)
  · decide +kernel
  · decide +kernel

end Bitpress.Inheritance
