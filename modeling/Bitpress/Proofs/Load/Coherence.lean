import Bitpress.Proofs.History.Requests
import Bitpress.Proofs.Import.Load

/-!
A registry shows what its document declares, and keeps the targets that it has.

Contents are coherent with a document if their first bits and constants are those
that it declares, one for each declaration and in order, and they are complete if
the same is so for targets. Every build makes coherent contents, and a full one
makes complete ones (`Load.build_made`). A registry that was loaded in full is
loaded in full from then on, so that once a request has found it, it stays
complete (`Store.Reachable.coherent`).
-/

namespace Bitpress

variable {α δ : Type} [Element α]

/-- What a declaration says about its element by itself: the name and the tags. -/
def Element.plate (a : α) : Option String × List String := (name? a, tags a)

namespace RegistryDocument

/-- The names and tags of the declared bits; the common tags of the document come after those of each. -/
def bitPlates (d : RegistryDocument) : List (Option String × List String) :=
  d.bits.map fun decl => (decl.name, decl.tags ++ d.tags)

def constantPlates (d : RegistryDocument) : List (Option String × List String) :=
  d.constants.map fun decl => (decl.name, decl.tags ++ d.tags)

def targetPlates (d : RegistryDocument) : List (Option String × List String) :=
  d.targets.map fun decl => (decl.name, decl.tags ++ d.tags)

end RegistryDocument

namespace Contents

/-- The first bits and constants are those that a document declares, one for each declaration and in order. -/
structure Coherent (c : Contents) (d : RegistryDocument) : Prop where
  bits : d.bitPlates <+: c.bits.items.map Element.plate
  constants : d.constantPlates <+: c.constants.items.map Element.plate

/-- The same for targets. -/
def Complete (c : Contents) (d : RegistryDocument) : Prop := d.targetPlates <+: c.targets.items.map Element.plate

/-- Contents are what a load in a mode leaves, if there was one. -/
structure Made (c : Contents) (mode : Option LoadMode) : Prop where
  coherent : ∀ d, c.document = some d → c.Coherent d
  complete : mode = some .full → ∃ d, c.document = some d ∧ c.Complete d

end Contents

/-! ### Elements of declarations -/

/-- What every round of a loop that succeeds leaves holds of all rounds at the end. -/
theorem of_foldlM_eq_ok {σ β γ : Type} {f : γ → β → ExceptT Error (StateM σ) γ} (post : List β → γ → Prop)
    (hstep : ∀ done a b s c t, post done b → effect (f b a) s = (.ok c, t) → post (done ++ [a]) c) {xs : List β}
    {b c : γ} {s t : σ} (hb : post [] b) (h : effect (xs.foldlM f b) s = (.ok c, t)) : post xs c := by
  have hrest : ∀ (rest done : List β) b s, post done b → effect (rest.foldlM f b) s = (.ok c, t) →
      post (done ++ rest) c := by
    intro rest
    induction rest with
    | nil =>
      intro done b s hb h
      cases h
      rwa [List.append_nil]
    | cons a rest ih =>
      intro done b s hb h
      rw [List.foldlM_cons] at h
      obtain ⟨b', s', hfirst, h⟩ := effect_bind_eq_ok.mp h
      have := ih (done ++ [a]) b' s' (hstep done a b s b' s' hb hfirst) h
      rwa [List.append_assoc, List.singleton_append] at this
  exact hrest xs [] b s hb h

theorem Collection.items_of_push {c c' : Collection α} {a : α} (h : c.push a = .ok c') : c'.items = c.items ++ [a] := by
  unfold Collection.push at h
  split at h
  · cases h
  · cases h
    rfl

theorem ElementInfo.create_plate {name : Option String} {tags : List String} {metadata : Table Tree}
    {s t : Session} {info : ElementInfo} (h : effect (ElementInfo.create name tags metadata) s = (.ok info, t)) :
    (info.name, info.tags) = (name, tags) := by
  obtain ⟨_, _, _, h⟩ := effect_bind_eq_ok.mp h
  cases h
  rfl

theorem Bit.ofDecl_plate {decl : BitDecl} {tags : List String} {s t : Session} {b : Bit}
    (h : effect (Bit.ofDecl decl tags) s = (.ok b, t)) : Element.plate b = (decl.name, decl.tags ++ tags) := by
  have hrest : ∀ {s : Session} {warnings : List Warning}, effect (do
      Press.warnAll warnings
      let info ← ElementInfo.create decl.name (decl.tags ++ tags) (Bit.declaredMetadata decl)
      Press.warnAll (DefaultsSpec.warnings decl.defaults)
      return (⟨info, decl.src, .ofTable decl.defaults, decl.presets.filter fun p => !Bit.isReserved p⟩ : Bit)) s =
        (.ok b, t) → Element.plate b = (decl.name, decl.tags ++ tags) := by
    intro s warnings h
    obtain ⟨_, _, _, h⟩ := effect_bind_eq_ok.mp h
    obtain ⟨info, _, hinfo, h⟩ := effect_bind_eq_ok.mp h
    obtain ⟨_, _, _, h⟩ := effect_bind_eq_ok.mp h
    cases h
    exact ElementInfo.create_plate hinfo
  unfold Bit.ofDecl at h
  dsimp only at h
  split at h
  · obtain ⟨_, _, hthrow, _⟩ := effect_bind_eq_ok.mp h
    cases hthrow
  · exact hrest h

theorem Constant.ofDecl_plate {decl : ConstantDecl} {tags : List String} {s t : Session} {c : Constant}
    (h : effect (Constant.ofDecl decl tags) s = (.ok c, t)) : Element.plate c = (decl.name, decl.tags ++ tags) := by
  obtain ⟨info, _, hinfo, h⟩ := effect_bind_eq_ok.mp h
  cases h
  exact ElementInfo.create_plate hinfo

namespace Load

variable {l : Library} {extent : Library.Extent} {fetch : Location → StoreM Unit} {mode : LoadMode}
  {trail : List Location} {p : Location} {r : Resolver} {d : RegistryDocument}

theorem elementsOf_plates {make : δ → Press α} {plate : δ → Option String × List String}
    (hmake : ∀ decl s a t, effect (make decl) s = (.ok a, t) → Element.plate a = plate decl) {decls : List δ}
    {c : Collection α} {s t : Building} (h : effect (elementsOf make decls) s = (.ok c, t)) :
    c.items.map Element.plate = decls.map plate := by
  unfold elementsOf at h
  refine of_foldlM_eq_ok (fun done (c : Collection α) => c.items.map Element.plate = done.map plate)
    (fun done decl c s c' t hc h => ?_) rfl h
  obtain ⟨a, s', ha, hpush⟩ := effect_bind_eq_ok.mp h
  rw [Build.effect_ofOutcome] at hpush
  have hplate := hmake decl _ a _ (Build.effect_of_press_eq_ok ha)
  rw [Collection.items_of_push (congrArg Prod.fst hpush), List.map_append, List.map_append, hc, List.map_singleton,
    List.map_singleton, hplate]

theorem targetOf_plate {decl : TargetDecl} {spec : TargetSpec} {target : Target} {s t : Building}
    (h : effect (targetOf r d decl spec) s = (.ok target, t)) :
    Element.plate target = (decl.name, decl.tags ++ d.tags) := by
  obtain ⟨_, _, _, h⟩ := effect_bind_eq_ok.mp h
  obtain ⟨_, _, _, h⟩ := effect_bind_eq_ok.mp h
  dsimp only at h
  split at h
  · obtain ⟨_, _, _, h⟩ := effect_bind_eq_ok.mp h
    obtain ⟨info, _, hinfo, h⟩ := effect_bind_eq_ok.mp h
    cases h
    exact ElementInfo.create_plate (Build.effect_of_press_eq_ok hinfo)
  · cases h

theorem targetsOf_plates {targets : Nat} {c : Collection Target} {s t : Building}
    (h : effect (targetsOf r targets d) s = (.ok c, t)) : c.items.map Element.plate = d.targetPlates := by
  obtain ⟨made, s', hmade, h⟩ := effect_bind_eq_ok.mp h
  cases h
  refine of_foldlM_eq_ok (fun done (made : Collection Target × Inheritance.Memo) =>
      made.1.items.map Element.plate = done.map fun decl => (decl.name, decl.tags ++ d.tags))
    (fun done decl made s made' t hdone h => ?_) rfl hmade
  obtain ⟨out, _, hout, h⟩ := effect_bind_eq_ok.mp h
  obtain ⟨c, _, hpush, h⟩ := effect_bind_eq_ok.mp h
  cases h
  rw [Build.effect_ofOutcome] at hpush
  have hplate : Element.plate out.1 = (decl.name, decl.tags ++ d.tags) := by
    unfold Build.within at hout
    rw [effect_tryCatch] at hout
    split at hout
    · rename_i hone
      cases hout
      obtain ⟨_, _, _, hone⟩ := effect_bind_eq_ok.mp hone
      obtain ⟨target, _, htarget, hone⟩ := effect_bind_eq_ok.mp hone
      cases hone
      exact targetOf_plate htarget
    · cases hout
  rw [Collection.items_of_push (congrArg Prod.fst hpush), List.map_append, List.map_append, hdone, List.map_singleton,
    List.map_singleton, hplate]

/-! ### Builds -/

/-- What a successful build leaves. -/
theorem build_made {c : Contents} {s t : Building} (h : effect (build l extent fetch mode trail p) s = (.ok c, t)) :
    c.Made (some mode) := by
  obtain ⟨d, _, _, h⟩ := effect_bind_eq_ok.mp h
  obtain ⟨ownBits, _, hbits, h⟩ := effect_bind_eq_ok.mp h
  obtain ⟨ownConstants, _, hconstants, h⟩ := effect_bind_eq_ok.mp h
  obtain ⟨found, _, _, h⟩ := effect_bind_eq_ok.mp h
  obtain ⟨_, _, _, h⟩ := effect_bind_eq_ok.mp h
  obtain ⟨ownTargets, _, htargets, h⟩ := effect_bind_eq_ok.mp h
  obtain ⟨_, _, _, h⟩ := effect_bind_eq_ok.mp h
  cases h
  have hfirst : ∀ {α : Type} [Element α] (own : Collection α) (part : Contents → List α),
      own.items.map Element.plate <+:
        ((found.filterMap id).foldl (fun c i => c.absorb (part i)) own).items.map Element.plate := by
    intro α _ own part
    rw [Collection.foldl_absorb part]
    exact Collection.prefix_absorbed.map _
  refine ⟨fun d' hd' => ?_, fun hmode => ⟨d, rfl, ?_⟩⟩
  · cases hd'
    refine ⟨?_, ?_⟩
    · have := hfirst ownBits fun i => i.bits.items
      rwa [elementsOf_plates (fun _ _ _ _ => Bit.ofDecl_plate) hbits] at this
    · have := hfirst ownConstants fun i => i.constants.items
      rwa [elementsOf_plates (fun _ _ _ _ => Constant.ofDecl_plate) hconstants] at this
  · cases hmode
    have := hfirst ownTargets fun i => i.targets.items
    rwa [targetsOf_plates htargets] at this

theorem CompleteBuild.made (b : CompleteBuild l extent p) : b.contents.Made (some b.mode) := by
  obtain ⟨_, hbuild, _⟩ := effect_ofBuild_eq_ok.mp b.complete
  exact build_made hbuild

end Load

/-! ### Requests -/

namespace Store

variable {s t u : Store} {p q : Location}

/-- What may happen to a store: other changes of the session, and requests with the files as they are then. -/
inductive Onwards (s : Store) : Store → Prop
  | refl : Onwards s s
  | session {t : Store} (session : Session) : Onwards s t → Onwards s { t with session }
  | call {t : Store} (c : Call) : Onwards s t → Onwards s (c.after t)

theorem Reachable.onwards (hs : s.Reachable) (h : Onwards s t) : t.Reachable := by
  induction h with
  | refl => exact hs
  | session session _ ih => exact .session session ih
  | call c _ ih => exact .call c ih

/-- After a request, registries are as builds leave them. -/
theorem Calm.made_after (hs : s.Calm) (hmade : ∀ p, (s.registry p).contents.Made (s.registry p).mode) (c : Call)
    (p : Location) : ((c.after s).registry p).contents.Made ((c.after s).registry p).mode := by
  rcases hs.loads c with hsame | ⟨blamed, events, hm, -, hfates⟩
  · rw [hsame]
    exact hmade p
  · cases (hfates p).1 with
    | untouched hu =>
      rw [hu.same]
      exact hmade p
    | built b _ _ _ _ _ _ _ made =>
      rw [made]
      exact b.made
    | failed _ _ _ _ same =>
      rw [same]
      exact hmade p

theorem Reachable.made (hs : s.Reachable) (p : Location) : (s.registry p).contents.Made (s.registry p).mode := by
  induction hs generalizing p with
  | start session => exact ⟨fun d hd => (by cases hd), fun hmode => (by cases hmode)⟩
  | session session _ ih => exact ih p
  | call c hs ih => exact hs.calm.made_after ih c p

/-- A registry that was loaded in full stays one, whatever is requested. -/
theorem full_after (c : Call) (h : (s.registry q).mode = some .full) : ((c.after s).registry q).mode = some .full := by
  have hreload : ∀ (l : Library) (p : Location), ((effect (reload l p) s).2.registry q).mode = some .full := by
    intro l p
    rw [effect_reload, Load.load_succ]
    exact (Load.loadWith_full (fun _ => Load.load_dependency_full l.extent.files) .full s.renewed q).mpr (.inl h)
  cases c with
  | get l p => exact after_full.mpr (.inr h)
  | reload l p => exact hreload l p

theorem Onwards.full (h : Onwards s t) (hs : (s.registry q).mode = some .full) : (t.registry q).mode = some .full := by
  induction h with
  | refl => exact hs
  | session session _ ih => exact ih
  | call c _ ih => exact full_after c ih

/-- Every registry with a document shows the bits and constants that this declares, in front of what it has from
others. Once a request has found a registry, it shows its declared targets as well, whatever happens afterwards. -/
theorem Reachable.coherent (hs : s.Reachable) :
    (∀ p d, (s.registry p).contents.document = some d → (s.registry p).contents.Coherent d) ∧
    ∀ l p r t, effect (get l p) s = (.ok r, t) → ∃ root, l.locate p = .ok root ∧ r = t.registry root ∧
      ∀ u, Onwards t u → ∃ d, (u.registry root).contents.document = some d ∧
        (u.registry root).contents.Complete d := by
  refine ⟨fun p d hd => (hs.made p).coherent d hd, fun l p r t h => ?_⟩
  obtain ⟨root, hroot, hr, _⟩ := hs.calm.get_ok h
  have hafter : (Call.get l p).after s = t := congrArg Prod.snd h
  have hfull : (t.registry root).mode = some .full := by
    rw [← hafter]
    exact after_full.mpr (.inl ⟨hroot, by rw [h]; rfl⟩)
  have ht : t.Reachable := hafter ▸ .call (.get l p) hs
  exact ⟨root, hroot, hr, fun u hu => ((ht.onwards hu).made root).complete (hu.full hfull)⟩

namespace Shelf

/-- The file with the target has changed, and a second target lacks a template. -/
def lacking : Library :=
  library "targets:\n- name: t\n  template: t.tex\n- name: u\n" "imports:\n- registry: a.yml\n"

/-- The store after requests for both registries, and one that fails on the changed file. -/
def worn : Store := (Call.get lacking a).after ((Call.get offering b).after ((Call.get offering a).after {}))

end Shelf

/-- A registry that was found, then imported, and that has failed since still shows its target. -/
theorem Reachable.coherent_of_worn :
    (Shelf.worn.registry Shelf.a).status = .failed ∧
      ∃ d, (Shelf.worn.registry Shelf.a).contents.document = some d ∧
        (Shelf.worn.registry Shelf.a).contents.Complete d ∧ d.targetPlates = [(some "t", [])] := by
  obtain ⟨-, hkeeps⟩ := Reachable.coherent (.start {})
  have hstore : effect (get Shelf.offering Shelf.a) {} =
      ((effect (get Shelf.offering Shelf.a) {}).1, (Call.get Shelf.offering Shelf.a).after {}) := rfl
  rcases hget : (effect (get Shelf.offering Shelf.a) {}).1 with e | r
  · have hfound : (effect (get Shelf.offering Shelf.a) {}).1.toOption.isSome := by decide +kernel
    rw [hget] at hfound
    cases hfound
  · rw [hget] at hstore
    obtain ⟨root, hroot, -, hkept⟩ := hkeeps _ _ r _ hstore
    have hlocate : Shelf.offering.locate Shelf.a = .ok Shelf.a := Outcome.toOption_eq_some.mp (by decide +kernel)
    cases hlocate.symm.trans hroot
    have hplates : (Shelf.worn.registry Shelf.a).contents.document.map RegistryDocument.targetPlates =
        some [(some "t", [])] := by decide +kernel
    obtain ⟨d, hd, hcomplete⟩ := hkept Shelf.worn (.call _ (.call _ .refl))
    rw [hd] at hplates
    exact ⟨by decide +kernel, d, hd, hcomplete, Option.some.inj hplates⟩

end Store

end Bitpress
