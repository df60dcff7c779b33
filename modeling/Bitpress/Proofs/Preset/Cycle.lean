import Bitpress.Proofs.Import.Get
import Bitpress.Proofs.Memo.Requests
import Bitpress.Proofs.Preset.Told
import Bitpress.Proofs.Resolution

/-!
Presets that need themselves.

A preset needs itself if it matters, for what it comes to, what is told of it
while it is resolved (`Resolver.NeedsItself`). Resolving queries and presets never
runs out of room, a preset that needs itself is refused, what an error shows as a
cycle is one, and the trail of presets is always left as it was
(`Resolver.FindsCycles`).

So it is in every load (`Load.Opens.finds_preset_cycles`): in the course of a
request, the build of a registry comes to its queries with a resolver that finds
cycles, for all queries and all bits; and if the defaults of one of its bits need
themselves, the load fails.
-/

namespace Bitpress

variable {α : Type} {S : Setting} {r : Resolver} {g : Ground} {on : Table Tree → Prop}

namespace Passage

/-- Steps that leave the trail of presets as it was, also when they fail. -/
def trail : Passage Building where
  ok s t := t.trail = s.trail
  err _ s t := t.trail = s.trail
  refl _ := rfl
  trans h h' := h'.trans h
  fail _ _ := rfl
  wrap h _ := h
  trans_err h h' := h'.trans h

theorem trail_suits : trail.Suits where
  session _ _ := rfl
  defaults _ _ _ := rfl
  visiting key x hx := by
    refine ⟨fun s => ?_⟩
    rw [Resolver.effect_visiting]
    have henter : ∀ longer, Resolver.enter s.trail key = .ok longer → longer = s.trail ++ [key] := by
      intro longer h
      unfold Resolver.enter at h
      split at h
      · exact (Except.ok.inj h).symm
      · cases h
    cases hentered : Resolver.enter s.trail key with
    | error e => exact trail.fail (Resolver.enter_fails s.trail key e hentered) s
    | ok longer =>
      have hlonger := henter longer hentered
      have hback : ∀ t : Building, t.trail = longer → t.trail.dropLast = s.trail := fun t ht => by
        rw [ht, hlonger, List.dropLast_concat]
      dsimp only
      rcases hr : effect x { s with trail := longer } with ⟨_ | a, t⟩
      · exact hback t (hx.of_error hr)
      · exact hback t (hx.of_ok hr)

end Passage

namespace Setting

/-- One of the presets of a bit that queries can find. -/
def Knows (S : Setting) (r : Resolver) (g : Ground) (k : Pick) : Prop :=
  k.Own ∧ (k.1 ∈ r.bits.items ∨ ∃ p c, S.bits g p c ∧ k.1 ∈ c.items)

theorem Knows.pair_mem {k : Pick} (hS : S.Bears r on) (hg : S.inv g) (hk : S.Knows r g k) : k.pair ∈ S.pairs g :=
  hk.2.elim (fun h => hS.own g hg _ h hk.1.pair_mem) fun ⟨p, c, hc, h⟩ => hS.lent g p c hg hc _ h hk.1.pair_mem

/-- The setting from a ground on. Its errors are plain, or those of the loads of other registries. -/
def since (S : Setting) (r : Resolver) (g : Ground) : Setting :=
  { S with
    inv := fun h => S.inv h ∧ S.le g h
    fails := fun e => S.fails e ∧
      (e.Plain ∨ ∃ p s e' t, S.inv s.ground ∧ effect (r.depend p) s = (.error e', t) ∧ e'.root = e.root) }

theorem Bears.since (hS : S.Bears r on) (g : Ground) : (S.since r g).Bears r on where
  plain e he := ⟨hS.plain e he, .inl he⟩
  within context e he := ⟨hS.within context e he.1, he.2⟩
  session h session hh hahead := by
    obtain ⟨hinv, hle⟩ := hS.session h session hh.1 hahead
    exact ⟨⟨hinv, S.trans hh.2 hle⟩, hle⟩
  defaults h id c hh hid := by
    obtain ⟨hinv, hle⟩ := hS.defaults h id c hh.1 hid
    exact ⟨⟨hinv, S.trans hh.2 hle⟩, hle⟩
  bits_mono := hS.bits_mono
  pairs_mono := hS.pairs_mono
  few h hh := hS.few h hh.1
  own h hh := hS.own h hh.1
  lent h p c hh := hS.lent h p c hh.1
  depend s t name q reference p hs ht hq hreference hp hne := by
    have hcomes := hS.depend s t name q reference p hs.1 ht hq hreference hp hne
    refine ⟨fun c u hu => ?_, fun e u hu => ⟨hcomes.error e u hu, .inr ⟨p, s, e, u, hs.1, hu, rfl⟩⟩⟩
    obtain ⟨hinv, hle, hbits⟩ := hcomes.ok c u hu
    exact ⟨⟨hinv, S.trans hs.2 hle.1⟩, hle, hbits⟩
  inside := hS.inside
  found h t k hh := hS.found h t k hh.1

/-- A step comes to an end. With a result, queries can be resolved again. An error is not for want of room, and
presets that it shows select each other, unless the load of another registry has failed so. -/
structure Ends (S : Setting) (r : Resolver) (x : Build α) (s : Building) : Prop where
  ok : ∀ a t, effect x s = (.ok a, t) → S.inv t.ground ∧ S.le s.ground t.ground ∧ t.trail = s.trail
  room : ∀ e t, effect x s = (.error e, t) → e.root ≠ .depthExceeded
  chain : ∀ e t chain, effect x s = (.error e, t) →
    e.root = .reference (.defaultsCycle chain) ∨ e.root = .reference (.presetCycle chain) →
    (∃ g picks, S.inv g ∧ S.le s.ground g ∧ ClosedWalk (S.Selects r g) Pick.pair picks ∧ chain = picks.map Pick.key) ∨
    S.fails e ∧ ∃ p u e' v, S.inv u.ground ∧ effect (r.depend p) u = (.error e', v) ∧ e'.root = e.root

theorem ends_of_comes (hfails : ∀ e, S.fails e → e.root ≠ .depthExceeded) {s : Building} {x : Build α}
    (hx : Comes.Safe ((S.since r s.ground).walking r []) x s) (hs : s.trail = []) : S.Ends r x s where
  ok a t h := by
    obtain ⟨hinv, -, -⟩ := hx.ok a t h
    exact ⟨hinv.1.1, hinv.1.2, hinv.2.1.trans hs.symm⟩
  room e t h := by
    rcases hx.error e t h with hload | ⟨_, _, _, picks, _, hroot⟩
    · exact hfails e hload.1
    · intro hroom
      rcases hroot with hroot | hroot <;> cases hroot.symm.trans hroom
  chain e t chain h hchain := by
    rcases hx.error e t h with ⟨hfail, hplain | hload⟩ | ⟨g, hg, -, picks, hwalk, hroot⟩
    · have hend := hplain.root
      rcases hchain with hchain | hchain
      all_goals
        rw [hchain] at hend
        exact hend.elim
    · exact .inr ⟨hfail, hload⟩
    · refine .inl ⟨g, picks, hg.1, hg.2, hwalk, ?_⟩
      rcases hroot with hroot | hroot <;> rcases hchain with hchain | hchain <;> cases hroot.symm.trans hchain <;> rfl

end Setting

namespace Resolver

/-- It matters for a preset what is told of it while it is resolved. -/
def NeedsItself (r : Resolver) (room : Nat) (k : Pick) (s : Building) : Prop :=
  ∃ answer answer', effect (r.resolve (overlayBy (r.ofChoiceTold k.key answer room)) k.1 k.2) s ≠
    effect (r.resolve (overlayBy (r.ofChoiceTold k.key answer' room)) k.1 k.2) s

/-- Resolving presets and running queries come to an end if there is room for all presets. A preset that needs
itself is refused, and the trail is left as it was. -/
structure FindsCycles (S : Setting) (r : Resolver) : Prop where
  ends : ∀ room, r.presets < room → ∀ s, S.inv s.ground → s.trail = [] →
    (∀ k, S.Knows r s.ground k → S.Ends r (r.ofChoice room k.1 k.2) s) ∧
    ∀ queries compose, S.Ends r (r.run (overlayBy (r.ofChoice room)) queries compose) s
  refuses : ∀ room s, S.inv s.ground → ∀ k, S.Knows r s.ground k → r.NeedsItself room k s →
    ∃ e t, effect (r.ofChoice (room + 1) k.1 k.2) s = (.error e, t)
  restores : ∀ room s,
    (∀ b choice, (effect (r.ofChoice room b choice) s).2.trail = s.trail) ∧
    (∀ b selector, (effect (overlayBy (r.ofChoice room) b selector) s).2.trail = s.trail) ∧
    ∀ depth queries compose,
      (effect (r.runNested (overlayBy (r.ofChoice room)) depth queries compose) s).2.trail = s.trail ∧
      ∀ q, (effect (r.blocksOf (overlayBy (r.ofChoice room))
        (r.runNested (overlayBy (r.ofChoice room)) depth) q) s).2.trail = s.trail

/-- A resolver finds cycles in a setting for all queries whose errors are not for want of room. -/
theorem findsCycles_of_bears (hS : S.Bears r fun _ => True) (hlends : S.Lends r fun _ => True)
    (hfails : ∀ e, S.fails e → e.root ≠ .depthExceeded) : FindsCycles S r where
  ends room hroom s hs htrail := by
    have hsince := hS.since s.ground
    have hinv : ((S.since r s.ground).walking r []).inv s :=
      ⟨⟨hs, S.refl s.ground⟩, htrail, fun _ h => (by cases h), .nil⟩
    refine ⟨fun k hk => ?_, fun queries compose => ?_⟩
    · have hpair : k.pair ∈ S.pairs s.ground := hk.pair_mem hS hs
      exact Setting.ends_of_comes hfails (ofChoice_comes hsince (by simpa using hroom) hinv hpair
        (fun _ h => by cases h) fun _ _ => trivial) htrail
    · exact Setting.ends_of_comes hfails (run_comes hsince hroom queries compose trivial hinv) htrail
  refuses room s hs k hk hneeds := by
    obtain ⟨answer, answer', hne⟩ := hneeds
    rcases h : effect (r.ofChoice (room + 1) k.1 k.2) s with ⟨e | context, t⟩
    · exact ⟨e, t, rfl⟩
    · have htold : ∀ answer, effect (r.resolve (overlayBy (r.ofChoiceTold k.key answer room)) k.1 k.2) s =
          (.ok context, t) := fun answer =>
        resolve_told hS hlends room hs (hk.pair_mem hS hs) (fun _ _ => trivial) h
      exact absurd ((htold answer).trans (htold answer').symm) hne
  restores room s := by
    have hdepend : ∀ p, Passage.trail.Keeps (r.depend p) := fun p => by
      refine ⟨fun s => ?_⟩
      have htrail := hlends.trail p s
      rcases hr : effect (r.depend p) s with ⟨_ | c, t⟩ <;> rw [hr] at htrail <;> exact htrail
    have hkept : ∀ {α : Type} {x : Build α}, Passage.trail.Keeps x → (effect x s).2.trail = s.trail := by
      intro α x hx
      rcases hr : effect x s with ⟨e | c, t⟩
      · exact hx.of_error hr
      · exact hx.of_ok hr
    have hchoice := ofChoice_keeps Passage.trail_suits hdepend room
    have hoverlay := overlayBy_keeps Passage.trail_suits hchoice
    have hrun := runNested_keeps Passage.trail_suits hdepend hoverlay
    exact ⟨fun b choice => hkept (hchoice b choice), fun b selector => hkept (hoverlay b selector),
      fun depth queries compose => ⟨hkept (hrun depth queries compose),
        fun q => hkept (blocksOf_keeps Passage.trail_suits hdepend hoverlay (hrun depth) q)⟩⟩

/-- The defaults of bits are resolved one after another. -/
theorem FindsCycles.defaults_come (h : r.FindsCycles S) {room : Nat} (hroom : r.presets < room) {bs : List Bit}
    (hbs : bs ⊆ r.bits.items) {s : Building} (hs : S.inv s.ground) (htrail : s.trail = []) :
    Comes.Safe { S.course with err := fun _ => True } (bs.mapM fun b => r.ofChoice room b .defaults) s := by
  refine .safe_mapM hs fun b t hb ht hle => ?_
  have hends := (h.ends room hroom t ht (hle.2.trans htrail)).1 (b, .defaults) ⟨trivial, .inl (hbs hb)⟩
  exact ⟨fun _ u hu => have ⟨hinv, hle, htrail⟩ := hends.ok _ u hu; ⟨hinv, ⟨hle, htrail⟩, trivial⟩, fun _ _ _ => trivial⟩

end Resolver

/-! ### Loads -/

namespace Load

open Store

variable {l : Library} {count generation room : Nat} {fetch : Location → StoreM Unit} {trail : List Location}
  {p : Location} {d : RegistryDocument} {base : Store} {own : List Bit} {bits : Collection Bit}
  {constants : Collection Constant} {s : Store}

/-- The build of a registry as a setting for all queries, with what loads keep of the defaults that are known. -/
def asking (l : Library) (count generation : Nat) (trail : List Location) (p : Location) (base : Store) (own : List Bit) :
    Setting :=
  { setting l (fun _ _ => True) generation trail p base own with
    inv := fun g => (setting l (fun _ _ => True) generation trail p base own).inv g ∧
      Keeping l count generation trail g.1 }

/-- A registry whose build has come to its queries, where other registries keep what loads keep. -/
structure Asks (l : Library) (count generation : Nat) (fetch : Location → StoreM Unit) (trail : List Location)
    (p : Location) (d : RegistryDocument) (base : Store) (own : List Bit) (bits : Collection Bit) : Prop
    extends Draft l (fun _ _ => True) generation fetch trail p d base own bits where
  given : ∀ b ∈ own, b.info.id.GivenBy base.session.identities
  keeps : ∀ q s, q ∉ trail → Keeping l count generation trail s →
    Obeys (keeping l count generation trail) (fetch q) s fun _ t => t.Current q

namespace Asks

variable (h : Asks l count generation fetch trail p d base own bits)

include h

/-- The bits whose presets are known have identities that are given out. -/
theorem givenBy {id : ElementId} {place : Option Nat} (hg : (asking l count generation trail p base own).inv g)
    (hid : (id, place) ∈ (asking l count generation trail p base own).pairs g) : id.GivenBy g.1.session.identities := by
  have hbit : ∀ b : Bit, (id, place) ∈ b.pairs → id = b.info.id := by
    intro b hb
    rcases List.mem_cons.mp hb with hb | hb
    · exact (Prod.mk.inj hb).1
    · obtain ⟨_, _, hb⟩ := List.mem_map.mp hb
      exact (Prod.mk.inj hb).1.symm
  obtain ⟨q, _, hid⟩ := List.mem_flatMap.mp hid
  split at hid
  · obtain ⟨b, hb, hid⟩ := List.mem_flatMap.mp hid
    rw [hbit b hid]
    exact (h.given b hb).mono hg.1.2.1.identities
  · split at hid
    · rename_i hcurrent
      obtain ⟨b, hb, hid⟩ := List.mem_flatMap.mp hid
      rw [hbit b hid]
      exact hg.2.shown q hcurrent b (own_subset .bits _ _ hb)
    · cases hid

/-- Other registries keep what loads keep. -/
theorem depend_keeps (q : Location) {b : Building} (hb : Keeping l count generation trail b.store) :
    Keeping l count generation trail (effect (depend fetch trail q) b).2.store ∧
      Gains b.store.session.identities b.store (effect (depend fetch trail q) b).2.store := by
  have hkept : (keeping l count generation trail).passage.onStore.Keeps (depend fetch trail q) :=
    Load.depend_keeps (fun q hq => Rule.keeps_of_safe fun s hs => (h.keeps q s hq hs).safe) q
  rcases hresult : effect (depend fetch trail q) b with ⟨_ | _, t⟩
  · exact hkept.of_error hresult hb
  · exact hkept.of_ok hresult hb

theorem bears : (asking l count generation trail p base own).Bears (resolver l fetch trail p bits constants)
    fun _ => True := by
  have hS : Setting.Bears _ (resolver l fetch trail p bits constants) fun _ => True := h.toDraft.bears (l.allows_all p)
  exact {
    plain := hS.plain
    within := hS.within
    session := fun g session hg hahead =>
      have ⟨hinv, hle⟩ := hS.session g session hg.1 hahead
      ⟨⟨hinv, hg.2.session hahead⟩, hle⟩
    defaults := fun g id c hg hid =>
      have ⟨hinv, hle⟩ := hS.defaults g id c hg.1 hid
      ⟨⟨hinv, hg.2.putDefaults (h.givenBy hg hid) c⟩, hle⟩
    bits_mono := hS.bits_mono
    pairs_mono := hS.pairs_mono
    few := fun g hg => hS.few g hg.1
    own := fun g hg => hS.own g hg.1
    lent := fun g q c hg => hS.lent g q c hg.1
    depend := fun s t name q reference p' hs ht hq hreference hp' hne => by
      have hcomes := hS.depend s t name q reference p' hs.1 ht hq hreference hp' hne
      refine ⟨fun c u hu => ?_, hcomes.error⟩
      obtain ⟨hinv, hle, hbits⟩ := hcomes.ok c u hu
      have hkept := (h.depend_keeps p' hs.2).1
      have heffect : effect (Load.depend fetch trail p') s = (.ok c, u) := hu
      rw [heffect] at hkept
      exact ⟨⟨hinv, hkept⟩, hle, hbits⟩
    inside := fun _ _ _ _ => trivial
    found := fun _ _ _ _ _ _ _ _ => trivial }

/-- A load gives nothing to bits that were there before it. -/
theorem lends : (asking l count generation trail p base own).Lends (resolver l fetch trail p bits constants)
    fun _ => True where
  trail q b := by
    show (effect (Load.depend fetch trail q) b).2.trail = b.trail
    rw [effect_depend]
    split
    · rfl
    · split
      · rfl
      · split <;> rfl
  unset {s _ _ _ _ q c u id} hs _ _ _ _ hu hid hnone := by
    have hgains := (h.depend_keeps q hs.2).2
    have heffect : effect (Load.depend fetch trail q) s = (.ok c, u) := hu
    rw [heffect] at hgains
    cases hv : u.store.defaults? id with
    | none => rfl
    | some v =>
      rcases hgains.fresh id v hv with hv | hafter
      · cases hnone.symm.trans hv
      · exact absurd hafter (h.givenBy hs hid).not_after

theorem findsCycles :
    (resolver l fetch trail p bits constants).FindsCycles (asking l count generation trail p base own) :=
  Resolver.findsCycles_of_bears h.bears h.lends fun _ he => he.room

end Asks

/-- A load can begin in the course of a request, with `room` for more registries on the trail. -/
structure Opens (l : Library) (count room : Nat) (trail : List Location) (p : Location) (s : Store) : Prop where
  canonical : p.Canonical
  distinct : (trail ++ [p]).Nodup
  places : trail ⊆ l.places
  room : l.extent.files < room + trail.length
  standing : s.Standing l
  kept : Keeping l count s.generation trail s
  idle : ¬ s.Current p

/-- A request begins with the load of its registry. -/
theorem Opens.of_request {root : Location} (hs : s.Served) (hroot : l.locate p = .ok root) :
    Opens l s.session.choices (l.extent.files + 1) [] root s.renewed := by
  have hrested := hs.rested
  have hnone : ∀ q, ¬ s.renewed.Current q := fun q hq => Bool.false_ne_true ((hrested.not_current q).symm.trans hq)
  refine ⟨Library.locate_canonical hroot, List.nodup_singleton _, List.nil_subset _, Nat.lt_succ_self _,
    ⟨fun q hq => absurd hq (hnone q), fun q _ hq => absurd hq (hnone q), fun q _ hq => absurd hq (hnone q)⟩,
    hrested.keeping l, hnone root⟩

/-- What a load has other registries loaded with, with its own registry on the trail. -/
def fetching (l : Library) (room generation : Nat) (trail : List Location) : Location → StoreM Unit :=
  unlessCurrent generation (load l l.extent room .dependency trail)

/-- A load fails if the build does. -/
theorem load_fails_of_build (mode : LoadMode) {e : Error} {b : Building}
    (hbuild : effect (build l l.extent (fetching l room s.generation (trail ++ [p])) ((s.registry p).modeFor mode)
      (trail ++ [p]) p) { store := begun s mode p } = (.error e, b)) :
    ∃ e t, effect (load l l.extent (room + 1) mode trail p) s = (.error e, t) := by
  have heffect : effect (loadWith l l.extent (load l l.extent room .dependency) mode trail p) s = _ :=
    effect_loadWith (load l l.extent room .dependency) mode s
  unfold buildFrom at heffect
  rw [effect_ofBuild] at heffect
  unfold fetching at hbuild
  rw [hbuild] at heffect
  rw [load_succ]
  exact ⟨_, _, heffect⟩

namespace Opens

variable (h : Opens l count (room + 1) trail p s)

include h

theorem begins : (loading l (fun _ _ => True) s.generation trail).inv s := ⟨rfl, h.standing, h.kept.idle⟩

/-- Other registries can be loaded from it. -/
theorem fetches (hdocument : l.document p = .ok d) :
    Fetches l (fun _ _ => True) s.generation (trail ++ [p]) p (fetching l room s.generation (trail ++ [p])) :=
  Suffices.fetches (load_comes (fun _ _ _ => trivial) room) h.canonical hdocument (.of_nodup (by simpa using h.distinct))
    h.places h.room

/-- Once it has gathered what it declares and imports, it has come to its queries. -/
theorem asks (mode : LoadMode) {g : Gathered} {b : Building}
    (hg : effect (gather l (fetching l room s.generation (trail ++ [p])) (trail ++ [p]) p)
      { store := begun s mode p } = (.ok g, b)) :
    Asks l count s.generation (fetching l room s.generation (trail ++ [p])) (trail ++ [p]) p g.document b.store
      g.ownBits.items g.bits ∧
    (asking l count s.generation (trail ++ [p]) p b.store g.ownBits.items).inv b.ground ∧ b.trail = [] := by
  have hwalk : Trail (fun _ _ => True) id (trail ++ [p]) := .of_nodup (by simpa using h.distinct)
  have hlast : (trail ++ [p]).getLast? = some p := List.getLast?_concat
  obtain ⟨hb, hle, n, session, found, imports, hgathers⟩ :=
    (gather_comes (fun _ _ => trivial) (fun d => h.fetches) hwalk hlast (begun_loading mode h.begins h.idle)).ok g b hg
  have hkeeps : ∀ q t, q ∉ trail ++ [p] → Keeping l count s.generation (trail ++ [p]) t →
      Obeys (keeping l count s.generation (trail ++ [p])) (fetching l room s.generation (trail ++ [p]) q) t
        fun _ u => u.Current q := fun q t hq ht =>
    unlessCurrent_obeys ht fun hidle => load_obeys hq ht hidle
  have hkept := ((gather_obeys hkeeps (begun_keeping mode h.kept h.idle).1).after hg).1
  refine ⟨{ hgathers.draft h.canonical hb.1.2.1 (fun _ _ => trivial) (h.fetches hgathers.document) hwalk hlast with
    given := fun a ha => ?_, keeps := hkeeps }, ⟨⟨hb.1, .refl _, hb.2.2⟩, hkept⟩, hle.2⟩
  exact (ElementId.GivenBy.of_given (hgathers.ownBits.given a ha)).mono
    (Nat.le_trans hgathers.late hgathers.grown.identities)

/-- A load opens the loads of other registries. -/
theorem next (hp : p ∈ l.places) {q : Location} {t : Store} (hstanding : t.Standing l)
    (hkept : Keeping l count s.generation (trail ++ [p]) t) (hq : q.Canonical) (hnew : q ∉ trail ++ [p])
    (hidle : ¬ t.Current q) : 0 < room ∧ Opens l count room (trail ++ [p]) q t := by
  have hinside : trail ++ [p] ⊆ l.places :=
    List.append_subset.mpr ⟨h.places, List.cons_subset.mpr ⟨hp, List.nil_subset _⟩⟩
  have hlength := (List.subperm_of_subset h.distinct hinside).length_le
  have hroom := h.room
  rw [l.length_places] at hlength
  rw [List.length_append, List.length_singleton] at hlength
  refine ⟨by omega, hq, ?_, hinside, ?_, hstanding, ?_, hidle⟩
  · rw [← List.concat_eq_append]
    exact .concat hnew h.distinct
  · rw [List.length_append, List.length_singleton]
    omega
  · rwa [hkept.generation]

/-- In the course of a request, a registry that has gathered what it declares and imports goes on with a resolver
that finds cycles, for all queries and all bits. Cycles that the loads of other registries report are in the files,
and such a load opens in its turn. If the defaults of one of the bits need themselves, the load fails. -/
theorem finds_preset_cycles (mode : LoadMode) {g : Gathered} {b : Building}
    (hg : effect (gather l (fetching l room s.generation (trail ++ [p])) (trail ++ [p]) p)
      { store := begun s mode p } = (.ok g, b)) :
    (asking l count s.generation (trail ++ [p]) p b.store g.ownBits.items).inv b.ground ∧ b.trail = [] ∧
    (g.resolver l (fetching l room s.generation (trail ++ [p])) (trail ++ [p]) p).FindsCycles
      (asking l count s.generation (trail ++ [p]) p b.store g.ownBits.items) ∧
    (∀ e chain, (asking l count s.generation (trail ++ [p]) p b.store g.ownBits.items).fails e →
      e.root = .reference (.defaultsCycle chain) ∨ e.root = .reference (.presetCycle chain) → l.Circle chain) ∧
    (∀ t q, t.Standing l → Keeping l count s.generation (trail ++ [p]) t → q.Canonical → q ∉ trail ++ [p] →
      ¬ t.Current q → 0 < room ∧ Opens l count room (trail ++ [p]) q t) ∧
    ∀ done c rest made t, g.ownBits.items = done ++ c :: rest →
      effect (done.mapM fun a => (g.resolver l (fetching l room s.generation (trail ++ [p])) (trail ++ [p]) p).ofChoice
        (l.extent.presets + 1) a .defaults) b = (.ok made, t) →
      (g.resolver l (fetching l room s.generation (trail ++ [p])) (trail ++ [p]) p).NeedsItself l.extent.presets
        (c, .defaults) t →
      ∃ e u, effect (load l l.extent (room + 1) mode trail p) s = (.error e, u) := by
  obtain ⟨hasks, hinv, htrail⟩ := h.asks mode hg
  have hfinds : (g.resolver l (fetching l room s.generation (trail ++ [p])) (trail ++ [p]) p).FindsCycles _ :=
    hasks.findsCycles
  have hbits : g.ownBits.items ⊆ g.bits.items := fun a ha => by
    rw [Gathered.bits, Collection.foldl_absorb fun i : Contents => i.bits.items]
    exact Collection.prefix_absorbed.subset ha
  refine ⟨hinv, htrail, hfinds, fun e chain he hroot => he.picked chain hroot, fun t q ht hkept hq hnew hidle => ?_,
    fun done c rest made t hown hdone hneeds => ?_⟩
  · exact h.next (Library.mem_places h.canonical hasks.document) ht hkept hq hnew hidle
  · obtain ⟨e, u, hfails⟩ : ∃ e u, effect (g.ownBits.items.mapM fun a =>
        (g.resolver l (fetching l room s.generation (trail ++ [p])) (trail ++ [p]) p).ofChoice
          (l.extent.presets + 1) a .defaults) b = (.error e, u) := by
      have hdone_bits : done ⊆ g.bits.items := fun a ha => hbits (hown ▸ List.mem_append_left _ ha)
      obtain ⟨hbefore, -, -⟩ :=
        (hfinds.defaults_come (Nat.lt_succ_self _) hdone_bits hinv htrail).ok made t hdone
      obtain ⟨e, u, hfails⟩ := hfinds.refuses l.extent.presets t hbefore (c, .defaults) ⟨trivial,
        .inl (hbits (hown ▸ List.mem_append_right _ (List.mem_cons_self ..)))⟩ hneeds
      rw [hown]
      exact ⟨e, u, effect_mapM_of_error hdone hfails⟩
    refine load_fails_of_build mode (e := e) (b := u) ?_
    rw [build_eq]
    refine effect_bind_eq_error.mpr (.inr ⟨g, b, hg, ?_⟩)
    exact effect_bind_eq_error.mpr (.inl hfails)

end Opens

/-! Two bits whose defaults take each other, in a registry that imports another one. -/

namespace Mirror

def library : Library :=
  { files := .dir [
      ("a.yml", .file (.text ("imports:\n- registry: b.yml\nbits:\n" ++
        "- name: x\n  tags: [left]\n  src: X\n  defaults:\n    queries:\n      parts:\n        where: \x7btags: [right]\x7d\n" ++
        "- name: y\n  tags: [right]\n  src: Y\n  defaults:\n    queries:\n      parts:\n        where: \x7btags: [left]\x7d\n"))),
      ("b.yml", .file (.text "bits:\n- name: z\n  tags: [right]\n  src: Z\n"))] }

def path : Location := ⟨"/a.yml"⟩

/-- What its load has the other one loaded with. -/
def other : Location → StoreM Unit := fetching library 2 1 [path]

def gathered : Outcome Gathered × Building :=
  effect (gather library other [path] path) { store := begun ({} : Store).renewed .full path }

/-- Whether the defaults of the first bit that was gathered can be resolved with an answer in place of themselves, and
cannot with another one. -/
def differs (answer answer' : Build Context) : Outcome Gathered × Building → Bool
  | (.error _, _) => false
  | (.ok g, b) =>
    match g.ownBits.items with
    | [] => false
    | c :: _ =>
      let r := g.resolver library other [path] path
      let told (answer : Build Context) : Bool :=
        (effect (r.resolve (Resolver.overlayBy (r.ofChoiceTold (Resolver.keyOf c .defaults) answer library.extent.presets))
          c .defaults) b).1.isOk
      told answer && !told answer'

theorem needsItself_of_differs {answer answer' : Build Context} {out : Outcome Gathered × Building}
    (h : differs answer answer' out = true) :
    ∃ g b c rest, out = (.ok g, b) ∧ g.ownBits.items = c :: rest ∧
      (g.resolver library other [path] path).NeedsItself library.extent.presets (c, .defaults) b := by
  obtain ⟨_ | g, b⟩ := out
  · cases h
  · unfold differs at h
    dsimp only at h
    cases hown : g.ownBits.items with
    | nil =>
      rw [hown] at h
      cases h
    | cons c rest =>
      rw [hown] at h
      obtain ⟨hyes, hno⟩ := Bool.and_eq_true_iff.mp h
      refine ⟨g, b, c, rest, rfl, hown, answer, answer', fun hsame => ?_⟩
      have hresult := congrArg (fun out => out.1.isOk) hsame
      exact Bool.noConfusion (hyes.symm.trans (hresult.trans ((Bool.not_eq_true' _).mp hno)))

end Mirror

theorem Opens.finds_preset_cycles_mirror :
    ∃ e t, effect (Store.get Mirror.library Mirror.path) {} = (.error e, t) := by
  have hlocate : Mirror.library.locate Mirror.path = .ok Mirror.path := Outcome.toOption_eq_some.mp (by decide +kernel)
  have hfiles : Mirror.library.extent.files = 2 := by decide +kernel
  have hdiffers : Mirror.differs (pure []) (throw .depthExceeded) Mirror.gathered = true := by decide +kernel
  have hopens : Opens Mirror.library 0 (2 + 1) [] Mirror.path ({} : Store).renewed :=
    hfiles ▸ Opens.of_request (.start {}) hlocate
  obtain ⟨g, b, c, rest, hg, hown, hneeds⟩ := Mirror.needsItself_of_differs hdiffers
  obtain ⟨-, -, -, -, -, hfails⟩ := hopens.finds_preset_cycles .full hg
  obtain ⟨e, t, hload⟩ := hfails [] c rest [] b hown rfl hneeds
  refine ⟨e, t, ?_⟩
  rw [Store.effect_get_locate hlocate, Store.effect_reload, hfiles, hload]

end Load

end Bitpress
