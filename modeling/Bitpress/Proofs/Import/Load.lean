import Bitpress.Proofs.Import.Build
import Bitpress.Proofs.Load.AllOrNothing

/-!
Loading a registry, and all that it requests.

A load makes its registry current, or fails in a fair way (`Load.load_comes`). The
registries that are being loaded are on a trail, each in the course of the one
before; they are all different files, so there is room for as many as there are.
A request begins a new generation, in which nothing is current yet; so all that
stands after it was loaded in its course (`Store.Calm.get_ok`,
`Store.Calm.get_destined`).
-/

namespace Bitpress

theorem Registry.modeFor_full (r : Registry) : r.modeFor .full = .full := by
  unfold modeFor
  split <;> rfl

namespace Load

open Store

variable {l : Library} {R : Location → Location → Prop} {trail : List Location} {p : Location} {s t : Store}
  {c : Contents}

/-! ### The end of a load -/

/-- Contents become those of one more current registry. -/
structure Joins (t u : Store) (p : Location) (c : Contents) : Prop where
  kept : Kept t u
  contents : (u.registry p).contents = c
  current : u.Current p
  others : ∀ q, q ≠ p → u.Current q → t.Current q

theorem joins_put {generation : Nat} (hgeneration : t.generation = generation) (mode : LoadMode) (hp : ¬ t.Current p)
    (c : Contents) : Joins t (t.put ⟨p, .loaded, generation, some mode, c⟩) p c := by
  subst hgeneration
  have hself := registry_put_self t ⟨p, .loaded, t.generation, some mode, c⟩
  have hother : ∀ q, q ≠ p → (t.put ⟨p, .loaded, t.generation, some mode, c⟩).registry q = t.registry q :=
    fun q hq => registry_put_of_ne t hq
  refine ⟨⟨rfl, Nat.le_refl _, fun q hq => hother q fun he => hp (he ▸ hq)⟩, congrArg Registry.contents hself, ?_,
    fun q hq hu => hu.congr rfl (hother q hq).symm⟩
  unfold Current
  rw [hself]
  simp [Registry.isCurrent, put_generation]

namespace Joins

section Kinds
variable {α δ : Type} [Element α] {K : Kind α δ} {u : Store} {a : α} {q : Location} (h : Joins t u p c)

include h

omit [Element α] in
/-- What current registries declare now: contents that have joined, or what others declared before. -/
theorem mem_own (hq : u.Current q) (ha : a ∈ u.own K q) :
    q = p ∧ a ∈ K.own c ∨ q ≠ p ∧ t.Current q ∧ a ∈ t.own K q := by
  by_cases hqp : q = p
  · rw [hqp, own, h.contents] at ha
    exact .inl ⟨hqp, ha⟩
  · rw [h.kept.own_eq (h.others q hqp hq)] at ha
    exact .inr ⟨hqp, h.others q hqp hq, ha⟩

theorem later (hnovel : Novel K s t c) (hlater : Later K s t) : Later K s u := by
  intro q hq hnew a ha
  rcases h.mem_own hq ha with ⟨-, ha⟩ | ⟨-, hq, ha⟩
  · exact (hnovel a ha).1
  · exact hlater q hq hnew a ha

theorem apart (hnovel : Novel K s t c) (hapart : Apart K t) : Apart K u := by
  intro q q' hq hq' hne a ha b hb
  rcases h.mem_own hq ha with ⟨rfl, ha⟩ | ⟨hqp, hq, ha⟩
  · rcases h.mem_own hq' hb with ⟨rfl, -⟩ | ⟨-, hq', hb⟩
    · exact absurd rfl hne
    · exact (hnovel a ha).2 q' hq' b hb
  · rcases h.mem_own hq' hb with ⟨rfl, hb⟩ | ⟨-, hq', hb⟩
    · exact ((hnovel b hb).2 q hq a ha).symm
    · exact hapart q q' hq hq' hne a ha b hb

end Kinds

/-- The registry that a build has made joins those that stand. -/
theorem standing {u : Store} (h : Joins t u p c) (ht : t.Standing l) (hc : Finished l s t p c) : u.Standing l := by
  refine ⟨fun q hq => ?_, h.apart hc.bits ht.bits, h.apart hc.constants ht.constants⟩
  by_cases hqp : q = p
  · obtain ⟨d, imports, hbuilt⟩ := hc.built
    rw [hqp, h.contents]
    exact ⟨d, imports, h.kept.built hbuilt⟩
  · obtain ⟨d, imports, hbuilt⟩ := ht.built q (h.others q hqp hq)
    rw [h.kept.same q (h.others q hqp hq)]
    exact ⟨d, imports, h.kept.built hbuilt⟩

theorem grown {u : Store} (h : Joins t u p c) (ht : Grown s t) (hc : Finished l s t p c) : Grown s u where
  generation := h.kept.generation.trans ht.generation
  identities := Nat.le_trans ht.identities h.kept.identities
  same q hq := (h.kept.same q (ht.current hq)).trans (ht.same q hq)
  bits := h.later hc.bits ht.bits
  constants := h.later hc.constants ht.constants

end Joins

/-! ### One load -/

/-- Nothing is current that was not when a build begins. -/
theorem begun_grown (mode : LoadMode) (hp : ¬ s.Current p) :
    Grown s (begun s mode p) ∧ (∀ q, (begun s mode p).Current q → s.Current q) := by
  refine Grown.of_idle rfl (Nat.le_refl _) fun q => ?_
  by_cases hq : q = p
  · subst hq
    refine .inr ⟨hp, ?_⟩
    unfold Current
    rw [begun_registry]
    simp [Registry.isCurrent]
  · exact .inl (begun_untouched s mode hq).same

/-- A build can begin. -/
theorem begun_loading {generation : Nat} (mode : LoadMode) (hs : (loading l R generation trail).inv s)
    (hnew : ¬ s.Current p) : (loading l R generation (trail ++ [p])).inv (begun s mode p) := by
  obtain ⟨hgeneration, hstanding, hidle⟩ := hs
  obtain ⟨hbegun, hnone⟩ := begun_grown mode hnew
  refine ⟨hgeneration, hstanding.move hbegun hnone, fun q hq hcurrent => ?_⟩
  rcases List.mem_append.mp hq with hq | hq
  · exact hidle q hq (hnone q hcurrent)
  · rw [List.mem_singleton.mp hq] at hcurrent
    exact hnew (hnone p hcurrent)

theorem loadWith_comes (hleads : ∀ p q, l.Requests p q → R p q) {generation : Nat}
    {next : List Location → Location → StoreM Unit} (mode : LoadMode)
    (hp : p.Canonical) (htrail : Trail R id (trail ++ [p])) (hs : (loading l R generation trail).inv s)
    (hnew : ¬ s.Current p) (hnext : ∀ d, l.document p = .ok d →
      Fetches l R generation (trail ++ [p]) p (unlessCurrent generation (next (trail ++ [p])))) :
    Comes (loading l R generation trail) (loadWith l l.extent next mode trail p) s fun _ t => t.Current p ∧
      ((s.registry p).modeFor mode = .full → l.DestinedAll p (t.registry p).contents.targets.items) := by
  have hstart := begun_loading mode hs hnew
  obtain ⟨hgeneration, hstanding, hidle⟩ := hs
  obtain ⟨hbegun, -⟩ := begun_grown mode hnew
  have hbuild := build_comes hp (hleads p) hnext htrail List.getLast?_concat ((s.registry p).modeFor mode) hstart
  have heffect : effect (loadWith l l.extent next mode trail p) s = _ := effect_loadWith next mode s
  unfold buildFrom at heffect
  rw [hgeneration, effect_ofBuild] at heffect
  rcases hresult : effect (build l l.extent (unlessCurrent generation (next (trail ++ [p])))
    ((s.registry p).modeFor mode) (trail ++ [p]) p) { store := begun s mode p } with ⟨r, b⟩
  rw [hresult] at heffect
  cases r with
  | error e =>
    refine .of_effect heffect (fun _ h => by cases h) fun e' he => ?_
    cases he
    exact .registryLoad htrail (hbuild.error e b hresult)
  | ok c =>
    obtain ⟨⟨⟨hgeneration', ht, hidle'⟩, hgrown, _⟩, -, hfinished, htargets⟩ := hbuild.ok c b hresult
    have hjoins := joins_put hgeneration' ((s.registry p).modeFor mode)
      (hidle' p (List.mem_append_right _ (List.mem_singleton_self p))) c
    refine .of_effect heffect (fun _ _ => ?_) fun e he => by cases he
    refine ⟨⟨hgeneration', hjoins.standing ht hfinished, fun q hq hcurrent => ?_⟩,
      hbegun.trans (hjoins.grown hgrown hfinished), hjoins.current, ?_⟩
    · have hqp : q ≠ p := fun he => htrail.before.2 (he ▸ hq)
      exact hidle' q (List.mem_append_left _ hq) (hjoins.others q hqp hcurrent)
    · exact fun hmode =>
        (congrArg (fun c : Contents => l.DestinedAll p c.targets.items) hjoins.contents).mpr (htargets hmode)

/-! ### All loads -/

/-- Loads with `room` for more registries on the trail make their registries current, or there is a fair reason why
not. -/
def Suffices (l : Library) (R : Location → Location → Prop) (room : Nat) : Prop :=
  ∀ {trail : List Location} {p : Location} {s : Store} {generation : Nat} (mode : LoadMode),
    p.Canonical → Trail R id (trail ++ [p]) → trail ⊆ l.places → l.extent.files < room + trail.length →
    (loading l R generation trail).inv s → ¬ s.Current p →
    Comes (loading l R generation trail) (load l l.extent room mode trail p) s fun _ t => t.Current p ∧
      (mode = .full → l.DestinedAll p (t.registry p).contents.targets.items)

/-- What the build of a registry leads to can be loaded, with one more registry on the trail. -/
theorem Suffices.fetches {room generation : Nat} (h : Suffices l R room) (hp : p.Canonical) {d : RegistryDocument}
    (hdocument : l.document p = .ok d) (htrail : Trail R id (trail ++ [p])) (hplaces : trail ⊆ l.places)
    (hroom : l.extent.files < room + 1 + trail.length) :
    Fetches l R generation (trail ++ [p]) p
      (unlessCurrent generation (load l l.extent room .dependency (trail ++ [p]))) := by
  intro q t ht hleads hq hfresh
  by_cases hcurrent : (t.registry q).isCurrent generation = true
  · refine .of_effect (by rw [effect_unlessCurrent, if_pos hcurrent]) (fun _ _ => ⟨ht, .refl t, ?_⟩) fun e he => by cases he
    unfold Current
    rw [ht.1]
    exact hcurrent
  · have hentered : Trail R id (trail ++ [p] ++ [q]) := by
      refine htrail.enter (fun b hb => ?_) fun b hb (he : b = q) => hfresh (he ▸ hb)
      rw [List.getLast?_concat] at hb
      cases hb
      exact hleads
    have hinside : trail ++ [p] ⊆ l.places :=
      List.append_subset.mpr ⟨hplaces, List.cons_subset.mpr ⟨Library.mem_places hp hdocument, List.nil_subset _⟩⟩
    have hlength : l.extent.files < room + (trail ++ [p]).length := by
      rw [List.length_append, List.length_singleton]
      omega
    have hnext := h .dependency hq hentered hinside hlength ht fun h => hcurrent (ht.1 ▸ h)
    exact .congr (by rw [effect_unlessCurrent, if_neg hcurrent]) (hnext.imp fun _ _ _ _ h => h.1)

theorem load_comes (hleads : ∀ p q, l.Requests p q → R p q) (room : Nat) : Suffices l R room := by
  induction room with
  | zero =>
    intro trail p s generation mode _ htrail hplaces hroom _ _
    have hlength := htrail.before.1.length_le fun q hq => hplaces hq
    rw [l.length_places] at hlength
    omega
  | succ room ih =>
    intro trail p s generation mode hp htrail hplaces hroom hs hnew
    rw [load_succ]
    exact (loadWith_comes hleads mode hp htrail hs hnew fun d hdocument =>
      ih.fetches hp hdocument htrail hplaces hroom).imp
      fun _ t _ _ h => ⟨h.1, fun hmode => h.2 (by rw [hmode]; exact Registry.modeFor_full _)⟩

end Load

namespace Store

open Load

variable {l : Library} {s t : Store} {p root : Location} {r : Registry} {e : Error}

/-- A request loads its registry from a store in which nothing is current. -/
theorem Calm.reload_comes (hs : s.Calm) (hroot : root.Canonical) :
    Comes (loading l l.Requests s.renewed.generation []) (Load.load l l.extent (l.extent.files + 1) .full [] root) s.renewed
      fun _ t => t.Current root ∧ l.DestinedAll root (t.registry root).contents.targets.items := by
  have hnone : ∀ q, ¬ s.renewed.Current q := fun q hq => Bool.false_ne_true ((hs.not_current q).symm.trans hq)
  have hstanding : s.renewed.Standing l :=
    ⟨fun q hq => absurd hq (hnone q), fun q _ hq => absurd hq (hnone q), fun q _ hq => absurd hq (hnone q)⟩
  have htrail : Trail l.Requests id ([] ++ [root]) := ⟨.singleton root, List.nodup_singleton _⟩
  exact (load_comes (fun _ _ h => h) (l.extent.files + 1) .full hroot htrail (List.nil_subset _) (Nat.lt_succ_self _)
    ⟨rfl, hstanding, fun q hq => by cases hq⟩ (hnone root)).imp fun _ _ _ _ h => ⟨h.1, h.2 rfl⟩

/-- After a successful request its registry is current, and all current registries stand. -/
theorem Calm.get_ok (hs : s.Calm) (h : effect (get l p) s = (.ok r, t)) :
    ∃ root, l.locate p = .ok root ∧ r = t.registry root ∧ t.Standing l ∧ t.Current root := by
  obtain ⟨root, hlocate, hreload, hr⟩ := get_eq_ok h
  obtain ⟨hinv, -, hcurrent, -⟩ := (hs.reload_comes (Library.locate_canonical hlocate)).ok _ _ hreload
  exact ⟨root, hlocate, hr, hinv.2.1, hcurrent⟩

/-- After a successful request, the declared targets of its registry go where they are meant to. -/
theorem Calm.get_destined (hs : s.Calm) (h : effect (get l p) s = (.ok r, t)) :
    ∃ root, l.locate p = .ok root ∧ l.DestinedAll root r.contents.targets.items := by
  obtain ⟨root, hlocate, hreload, rfl⟩ := get_eq_ok h
  exact ⟨root, hlocate, ((hs.reload_comes (Library.locate_canonical hlocate)).ok _ _ hreload).2.2.2⟩

/-- A request fails in a fair way. -/
theorem Calm.get_error (hs : s.Calm) (h : effect (get l p) s = (.error e, t)) : l.Fair l.Requests [] e := by
  rcases get_eq_error h with hlocate | ⟨root, hlocate, hreload⟩
  · exact Library.fair_of_plain (l.locate_fails p e hlocate)
  · exact (hs.reload_comes (Library.locate_canonical hlocate)).error _ _ hreload

end Store

end Bitpress
