import Bitpress.Proofs.Load.AllOrNothing
import Bitpress.Proofs.Memo.Build

/-!
Loads keep the defaults that are known, and leave faithful registries.

A load that succeeds makes its registry current with the contents of its build, and
a load that fails makes nothing current (`Load.load_obeys`). So the registries that
are current after a request are faithful to the files that it found, even if the
request fails.
-/

namespace Bitpress

namespace Load

open Store

variable {l : Library} {count generation n room : Nat} {trail trail' : List Location} {p : Location} {r : Registry}
  {s t u : Store} {mode : LoadMode}

/-- A registry is put in place. What may be told besides matters to nobody. -/
structure Placed (r : Registry) (t u : Store) : Prop where
  generation : u.generation = t.generation
  session : u.session = t.session
  defaults : ∀ id, u.defaults? id = t.defaults? id
  self : u.registry r.path = r
  others : ∀ q, q ≠ r.path → u.registry q = t.registry q

theorem Placed.put (t : Store) (r : Registry) : Placed r t (t.put r) where
  generation := rfl
  session := rfl
  defaults _ := rfl
  self := registry_put_self t r
  others _ hq := registry_put_of_ne t hq

theorem Placed.say (h : Placed r t u) (e : LoadEvent) : Placed r t (u.say e) := { h with }

namespace Placed

variable (h : Placed r t u)

include h

/-- Other registries are current as before. -/
theorem others_current {q : Location} (hq : q ≠ r.path) (hcurrent : u.Current q) : t.Current q :=
  hcurrent.congr h.generation.symm (h.others q hq).symm

theorem self_current (hcurrent : u.Current r.path) : r.isCurrent t.generation = true := by
  unfold Current at hcurrent
  rwa [h.self, h.generation] at hcurrent

theorem lasts (hidle : ¬ t.Current r.path) : Lasts t u where
  generation := h.generation
  identities := Nat.le_of_eq (congrArg Session.identities h.session.symm)
  same q hq := h.others q fun he => hidle (he ▸ hq)
  choices := Nat.le_of_eq (congrArg Session.choices h.session.symm)
  defaults id _ hv := (h.defaults id).trans hv

/-- What a current registry shows: the one in place, or what another one showed before. -/
theorem mem_items {q : Location} {b : Bit} (hcurrent : u.Current q) (hb : b ∈ u.items .bits q) :
    q = r.path ∧ r.isCurrent t.generation = true ∧ b ∈ r.contents.bits.items ∨ t.Current q ∧ b ∈ t.items .bits q := by
  by_cases hq : q = r.path
  · subst hq
    unfold items at hb
    rw [h.self] at hb
    exact .inl ⟨rfl, h.self_current hcurrent, hb⟩
  · unfold items at hb
    rw [h.others q hq] at hb
    exact .inr ⟨h.others_current hq hcurrent, hb⟩

/-- The same for what a current registry declares. -/
theorem mem_own {q : Location} {b : Bit} (hcurrent : u.Current q) (hb : b ∈ u.own .bits q) :
    r.isCurrent t.generation = true ∧ b ∈ Kind.bits.own r.contents ∨ t.Current q ∧ b ∈ t.own .bits q := by
  unfold own at hb
  by_cases hq : q = r.path
  · subst hq
    rw [h.self] at hb
    exact .inl ⟨h.self_current hcurrent, hb⟩
  · rw [h.others q hq] at hb
    exact .inr ⟨h.others_current hq hcurrent, hb⟩

theorem gains (hgains : Gains n s t) (hidle : ¬ t.Current r.path) (hlent : r.isCurrent t.generation = true →
      ∀ b ∈ r.contents.bits.items, (∃ q, s.Current q ∧ b ∈ s.items .bits q) ∨ b.info.id.GivenAfter n) : Gains n s u where
  toLasts := hgains.toLasts.trans (h.lasts hidle)
  fresh id v hv := hgains.fresh id v ((h.defaults id).symm.trans hv)
  lent q hq b hb := by
    rcases h.mem_items hq hb with ⟨-, hcurrent, hb⟩ | ⟨hq, hb⟩
    · exact hlent hcurrent b hb
    · exact hgains.lent q hq b hb

/-- What loads keep is kept if the registry is, or is not current. -/
theorem keeping (ht : Keeping l count generation trail t) (hidle : ¬ t.Current r.path)
    (hsettles : t.Settles r.contents) (htrail : ∀ q ∈ trail', q ∈ trail ∨ q = r.path)
    (hnew : r.isCurrent t.generation = true →
      r.path ∉ trail' ∧ Fits t r.contents ∧ Faithful l count u r.path) :
    Keeping l count generation trail' u := by
  have hlasts := h.lasts hidle
  refine ⟨h.generation.trans ht.generation, Nat.le_trans ht.choices hlasts.choices, fun q => ?_, fun id v hv => ?_,
    fun q hq b hb => ?_, fun q hq b hb => ?_, fun q q' hq hq' a ha b hb hid => ?_, fun q hq => ?_,
    fun q hq hcurrent => ?_⟩
  · by_cases hqp : q = r.path
    · rw [hqp, h.self]
      exact hsettles.mono hlasts.defaults
    · rw [h.others q hqp]
      exact (ht.settled q).mono hlasts.defaults
  · exact (ht.dated id v ((h.defaults id).symm.trans hv)).mono hlasts.identities
  · have hbefore : b.info.id.GivenBy t.session.identities := by
      rcases h.mem_items hq hb with ⟨-, hcurrent, hb⟩ | ⟨hq, hb⟩
      · rcases (hnew hcurrent).2.1.members b hb with hb | ⟨q', hq', hb⟩
        · exact (hnew hcurrent).2.1.given b hb
        · exact ht.shown q' hq' b hb
      · exact ht.shown q hq b hb
    exact hbefore.mono hlasts.identities
  · have hlent : ∀ q, t.Current q → b ∈ t.items .bits q → ∃ q, u.Current q ∧ b ∈ u.own .bits q := by
      intro q hq hb
      obtain ⟨q', hq', hb⟩ := ht.owned q hq b hb
      exact ⟨q', hlasts.current hq', by rwa [hlasts.own_eq hq']⟩
    rcases h.mem_items hq hb with ⟨rfl, hcurrent, hb⟩ | ⟨hq, hb⟩
    · rcases (hnew hcurrent).2.1.members b hb with hb | ⟨q', hq', hb⟩
      · exact ⟨r.path, hq, by unfold own; rwa [h.self]⟩
      · exact hlent q' hq' hb
    · exact hlent q hq hb
  · rcases h.mem_own hq ha with ⟨hcurrent, ha⟩ | ⟨hq, ha⟩
    · rcases h.mem_own hq' hb with ⟨-, hb⟩ | ⟨hq', hb⟩
      · exact List.inj_on_of_nodup_map (hnew hcurrent).2.1.distinct ha hb hid
      · exact absurd hid ((hnew hcurrent).2.1.apart q' hq' b (t.own_subset .bits _ hb) a ha)
    · rcases h.mem_own hq' hb with ⟨hcurrent, hb⟩ | ⟨hq', hb⟩
      · exact absurd hid.symm ((hnew hcurrent).2.1.apart q hq a (t.own_subset .bits _ ha) b hb)
      · exact ht.unique q q' hq hq' a ha b hb hid
  · by_cases hqp : q = r.path
    · subst hqp
      exact (hnew (h.self_current hq)).2.2
    · exact (ht.faithful q (h.others_current hqp hq)).move hlasts
  · by_cases hqp : q = r.path
    · subst hqp
      exact (hnew (h.self_current hcurrent)).1 hq
    · exact ht.idle q ((htrail q hq).resolve_right hqp) (h.others_current hqp hcurrent)

end Placed

/-! ### One load -/

/-- The registry that a build has made is faithful. -/
theorem Crafted.faithful_placed {c : Contents} (h : Crafted l count s t p c) (hu : Placed r t u) (hpath : r.path = p)
    (hcontents : r.contents = c) (hidle : ¬ t.Current p) (hcurrent : u.Current p) : Faithful l count u p := by
  subst hpath hcontents
  intro later hlasts hchoices b hb
  have hregistry : later.registry r.path = r := (hlasts.same r.path hcurrent).trans hu.self
  have hown : later.own .bits r.path = Kind.bits.own r.contents := congrArg (fun r : Registry => Kind.bits.own r.contents) hregistry
  have hresolver : later.resolver l r.path = .settled l r.path r.contents.bits r.contents.constants := by
    unfold Store.resolver
    rw [hregistry]
  rw [hown] at hb
  have hsince : Lasts t later := (hu.lasts hidle).trans hlasts
  obtain ⟨v, hv, hrepeats⟩ := h.faithful later ⟨hsince, hchoices⟩ b hb
  refine ⟨v, hsince.defaults _ v hv, givesAfresh_iff.mpr ?_⟩
  rwa [hresolver, hown]

theorem begun_placed (s : Store) (mode : LoadMode) (p : Location) :
    Placed { s.registry p with status := .loading } s (begun s mode p) := (Placed.put s _).say _

/-- A build can begin. -/
theorem begun_keeping (mode : LoadMode) (hs : Keeping l count generation trail s) (hnew : ¬ s.Current p) :
    Keeping l count generation (trail ++ [p]) (begun s mode p) ∧ Gains s.session.identities s (begun s mode p) := by
  have hpath : (s.registry p).path = p := registry_path s p
  have hidle : ¬ s.Current (s.registry p).path := by rwa [hpath]
  have hbegun := begun_placed s mode p
  refine ⟨hbegun.keeping hs hidle (hs.settled p) (fun q hq => ?_) fun h => (by cases h),
    hbegun.gains (.refl _ s) hidle fun h => by cases h⟩
  rw [hpath]
  exact (List.mem_append.mp hq).imp_right List.mem_singleton.mp

theorem loadWith_obeys {next : List Location → Location → StoreM Unit} (hp : p ∉ trail)
    (hs : Keeping l count generation trail s) (hnew : ¬ s.Current p)
    (hnext : ∀ q t, q ∉ trail ++ [p] → Keeping l count generation (trail ++ [p]) t →
      Obeys (keeping l count generation (trail ++ [p])) (unlessCurrent generation (next (trail ++ [p])) q) t
        fun _ u => u.Current q) :
    Obeys (keeping l count generation trail) (loadWith l l.extent next mode trail p) s fun _ t => t.Current p := by
  have hpath : (s.registry p).path = p := registry_path s p
  obtain ⟨hstart, hgains⟩ := begun_keeping mode hs hnew
  have hbuild : Obeys _ (build l l.extent (unlessCurrent generation (next (trail ++ [p]))) ((s.registry p).modeFor mode)
    (trail ++ [p]) p) { store := begun s mode p } _ := build_obeys hnext hstart
  have heffect : effect (loadWith l l.extent next mode trail p) s = _ := effect_loadWith next mode s
  unfold buildFrom at heffect
  rw [hs.generation, effect_ofBuild] at heffect
  rcases hresult : effect (build l l.extent (unlessCurrent generation (next (trail ++ [p])))
    ((s.registry p).modeFor mode) (trail ++ [p]) p) { store := begun s mode p } with ⟨result, b⟩
  rw [hresult] at heffect
  obtain ⟨hb, hle⟩ := hbuild.after hresult
  have hall : Gains s.session.identities s b.store := hgains.trans hle
  have hgone : ¬ b.store.Current p := hb.idle p (List.mem_append_right _ (List.mem_singleton_self p))
  have hwithin : ∀ q ∈ trail, q ∈ trail ++ [p] := fun q hq => List.mem_append_left _ hq
  cases result with
  | error e =>
    have hended : Placed { s.registry p with status := .failed } b.store (ended s b.store p) := (Placed.put _ _).say _
    rw [← hpath] at hgone
    refine .of_effect heffect ?_ (hended.gains hall hgone fun h => by cases h) fun a ha => by cases ha
    exact hended.keeping hb hgone ((hs.settled p).mono hall.defaults) (fun q hq => .inl (hwithin q hq)) fun h => by cases h
  | ok c =>
    have hcrafted := hbuild.ok c b hresult
    have hplaced := Placed.put b.store ⟨p, .loaded, generation, some ((s.registry p).modeFor mode), c⟩
    have hcurrent : (b.store.put ⟨p, .loaded, generation, some ((s.registry p).modeFor mode), c⟩).Current p := by
      unfold Current
      rw [hplaced.self, hplaced.generation, hb.generation]
      simp [Registry.isCurrent]
    refine .of_effect heffect ?_ (hplaced.gains hall hgone fun _ a ha => ?_) fun _ _ => hcurrent
    · refine hplaced.keeping hb hgone hcrafted.settles (fun q hq => .inl (hwithin q hq)) fun _ => ⟨hp, hcrafted.toFits,
        hcrafted.faithful_placed hplaced rfl rfl hgone hcurrent⟩
    · rcases hcrafted.members a ha with ha | ⟨q, hq, ha⟩
      · exact .inr (hcrafted.young a ha)
      · exact hall.lent q hq a ha

/-! ### All loads -/

/-- A load that is left out where the registry is current already. -/
theorem unlessCurrent_obeys {next : Location → StoreM Unit} {q : Location} (ht : Keeping l count generation trail t)
    (hnext : ¬ t.Current q → Obeys (keeping l count generation trail) (next q) t fun _ u => u.Current q) :
    Obeys (keeping l count generation trail) (unlessCurrent generation next q) t fun _ u => u.Current q := by
  by_cases hcurrent : (t.registry q).isCurrent generation = true
  · have heffect : effect (unlessCurrent generation next q) t = (.ok (), t) := by
      rw [effect_unlessCurrent, if_pos hcurrent]
    refine .of_effect heffect ht (.refl _ t) fun _ _ => ?_
    unfold Current
    rw [ht.generation]
    exact hcurrent
  · have heffect : effect (unlessCurrent generation next q) t = effect (next q) t := by
      rw [effect_unlessCurrent, if_neg hcurrent]
    have hload := hnext fun h => hcurrent (ht.generation ▸ h)
    exact .of_effect heffect hload.inv hload.le fun a ha => hload.ok a _ (Prod.ext ha rfl)

/-- A load keeps what is known, and its registry is current if it succeeds. -/
theorem load_obeys (hp : p ∉ trail) (hs : Keeping l count generation trail s) (hnew : ¬ s.Current p) :
    Obeys (keeping l count generation trail) (load l l.extent room mode trail p) s fun _ t => t.Current p := by
  induction room generalizing trail p s mode with
  | zero =>
    rw [load_zero]
    exact .throw hs
  | succ room ih =>
    rw [load_succ]
    exact loadWith_obeys hp hs hnew fun q t hq ht => unlessCurrent_obeys ht fun hidle => ih hq ht hidle

end Load

end Bitpress
