import Bitpress.Proofs.Import.Setting
import Bitpress.Proofs.Memo.Course

/-!
Resolving queries while a registry is built, against resolving them afresh.

At any time of the build, the defaults that are kept of the registry's own bits
are those that are worked out afresh in every later store (`Making.Working.sound`). A
preset that is resolved with their help comes to what it comes to afresh, however
many of them are there already and whichever was asked for first
(`Making.ofChoice_echoes`).
-/

namespace Bitpress

namespace Load

open Store Replay

/-- A bit that a query can find: one of the registry's own, or one whose defaults are there. -/
def Known (own : List Bit) (s : Store) (b : Bit) : Prop :=
  b ∈ own ∨ (∀ a ∈ own, a.info.id ≠ b.info.id) ∧ ∃ v, s.defaults? b.info.id = some v

theorem Known.mono {own : List Bit} {s t : Store} {b : Bit} (h : Known own s b) (hle : KeepsDefaults s t) : Known own t b :=
  h.imp_right fun ⟨hother, v, hv⟩ => ⟨hother, v, hle _ v hv⟩

/-- A store comes later, and no more unseeded choices were made. -/
def Leads (count : Nat) (later s : Store) : Prop := Lasts s later ∧ later.session.choices = count

/-- A registry in the making, which has declared the bits `own` and shows `bits` and `constants`. -/
structure Making where
  library : Library
  path : Location
  own : List Bit
  bits : Collection Bit
  constants : Collection Constant
  /-- How many unseeded choices and how many identities there were before. -/
  count : Nat
  since : Nat
  generation : Nat
  trail : List Location
  distinct : (own.map fun b => b.info.id).Nodup
  young : ∀ b ∈ own, b.info.id.GivenAfter since

namespace Making

variable (D : Making)

/-- What the build resolves queries against. -/
abbrev resolver (fetch : Location → StoreM Unit) : Resolver :=
  Load.resolver D.library fetch D.trail D.path D.bits D.constants

/-- What later stores resolve them against. -/
abbrev settled : Resolver := .settled D.library D.path D.bits D.constants

/-- The variables of a preset, worked out afresh in later stores. -/
def afresh (room : Nat) (b : Bit) (choice : PresetChoice) : Build Context :=
  D.settled.ofChoiceAfresh D.own room b choice

/-- What holds between the steps of the build. -/
structure Working (later : Store) (g : Ground) : Prop where
  keeping : Keeping D.library D.count D.generation D.trail g.1
  depends : ∀ q ∈ g.2, g.1.Current q
  since : D.since ≤ g.1.session.identities
  given : ∀ b ∈ D.own, b.info.id.GivenBy g.1.session.identities
  apart : ∀ q, g.1.Current q → ∀ b ∈ g.1.items .bits q, ∀ a ∈ D.own, a.info.id ≠ b.info.id
  found : ∀ b ∈ D.bits.items, Known D.own g.1 b
  sound : ∀ b ∈ D.own, ∀ v, g.1.defaults? b.info.id = some v → Leads D.count later g.1 →
    Repeats (Visits later) (fun room => D.afresh room b .defaults) v

/-- The build, against later stores. -/
def replay (later : Store) : Replay where
  inv := D.Working later
  le g h := Gains D.since g.1 h.1
  fair g := Leads D.count later g.1
  sees := Visits later
  knows g := Known D.own g.1
  refl g := .refl _ g.1
  trans := .trans
  fair_of_le h h' := ⟨h.toLasts.trans h'.1, h'.2⟩

/-- Registries that the build needs can be loaded. -/
def Fetches (fetch : Location → StoreM Unit) : Prop :=
  ∀ q s, q ∉ D.trail → (keeping D.library D.count D.generation D.trail).inv s →
    Obeys (keeping D.library D.count D.generation D.trail) (fetch q) s fun _ t => t.Current q

variable {D} {later : Store} {g : Ground} {s t : Store} {b : Bit} {fetch : Location → StoreM Unit} {q : Location}

namespace Working

/-- Others change the store. -/
theorem move (h : D.Working later g) (ht : Keeping D.library D.count D.generation D.trail t) (hlasts : Lasts g.1 t)
    (hsame : ∀ b ∈ D.own, t.defaults? b.info.id = g.1.defaults? b.info.id)
    (hapart : ∀ q, t.Current q → ∀ b ∈ t.items .bits q, ∀ a ∈ D.own, a.info.id ≠ b.info.id) {deps : List Location}
    (hdeps : ∀ q ∈ deps, t.Current q) : D.Working later (t, deps) where
  keeping := ht
  depends := hdeps
  since := Nat.le_trans h.since hlasts.identities
  given b hb := (h.given b hb).mono hlasts.identities
  apart := hapart
  found b hb := (h.found b hb).mono hlasts.defaults
  sound b hb v hv hleads := h.sound b hb v (hsame b hb ▸ hv) ⟨hlasts.trans hleads.1, hleads.2⟩

theorem session (h : D.Working later g) {session : Session} (hahead : Press.ahead.le g.1.session session) :
    D.Working later ({ g.1 with session }, g.2) :=
  h.move (h.keeping.session hahead) (.session hahead) (fun _ _ => rfl) h.apart h.depends

/-- A load gives nothing to the bits that were declared before it. -/
theorem fetched (h : D.Working later g) (ht : Keeping D.library D.count D.generation D.trail t)
    (hgains : Gains g.1.session.identities g.1 t) : D.Working later (t, g.2) := by
  refine h.move ht hgains.toLasts (fun b hb => ?_) (fun q hq b hb a ha hid => ?_) fun q hq => hgains.current (h.depends q hq)
  · cases hv : t.defaults? b.info.id with
    | some v =>
      rcases hgains.fresh _ v hv with hv | hafter
      · exact hv.symm
      · exact absurd hafter (h.given b hb).not_after
    | none =>
      cases hbefore : g.1.defaults? b.info.id with
      | none => rfl
      | some v => cases hv.symm.trans (hgains.defaults _ v hbefore)
  · rcases hgains.lent q hq b hb with ⟨q', hq', hb⟩ | hafter
    · exact h.apart q' hq' b hb a ha hid
    · exact (h.given a ha).not_after (hid ▸ hafter)

/-- The defaults of an own bit are kept, unless there are some. -/
theorem putDefaults (h : D.Working later g) (hb : b ∈ D.own) {v : Context}
    (hv : Leads D.count later g.1 → Repeats (Visits later) (fun room => D.afresh room b .defaults) v) :
    D.Working later (g.1.putDefaults b.info.id v, g.2) := by
  have hlasts := Lasts.putDefaults g.1 b.info.id v
  have hregistry := putDefaults_registry g.1 b.info.id v
  have hback : ∀ q, (g.1.putDefaults b.info.id v).Current q → g.1.Current q := fun q hq =>
    hq.congr (putDefaults_generation g.1 b.info.id v).symm (hregistry q).symm
  refine ⟨h.keeping.putDefaults (h.given b hb) v, fun q hq => hlasts.current (h.depends q hq),
    Nat.le_trans h.since hlasts.identities, fun b hb => (h.given b hb).mono hlasts.identities, fun q hq b' hb' => ?_,
    fun b hb => (h.found b hb).mono hlasts.defaults, fun a ha w hw hleads => ?_⟩
  · unfold items at hb'
    rw [hregistry] at hb'
    exact h.apart q (hback q hq) b' hb'
  · have hbefore : Leads D.count later g.1 := ⟨hlasts.trans hleads.1, hleads.2⟩
    by_cases hid : a.info.id = b.info.id
    · -- Own bits have identities of their own.
      rw [List.inj_on_of_nodup_map D.distinct ha hb hid] at hw ⊢
      rw [defaults?_putDefaults_self] at hw
      cases hknown : g.1.defaults? b.info.id with
      | none =>
        rw [hknown] at hw
        cases hw
        exact hv hbefore
      | some known =>
        rw [hknown] at hw
        cases hw
        exact h.sound b hb known hknown hbefore
    · rw [defaults?_putDefaults_of_ne _ _ hid] at hw
      exact h.sound a ha w hw hbefore

/-- Bits of other registries have their defaults there. -/
theorem known (h : D.Working later g) (hq : g.1.Current q) (hb : b ∈ g.1.items .bits q) : Known D.own g.1 b :=
  .inr ⟨h.apart q hq b hb, h.keeping.settled q b hb⟩

end Working

/-! ### Resolving -/

/-- Reading a registry in later stores gives what it is now. -/
theorem read_repeats {s : Store} (hq : s.Current q) (hleads : Leads D.count later s) :
    Repeats (Visits later) (fun _ => D.settled.depend q) (s.registry q).contents := by
  refine ⟨0, fun _ _ u hu => ⟨u, ?_, hu⟩⟩
  obtain ⟨session, rfl⟩ := hu
  have hlater : (later.registry q).isCurrent later.generation = true := hleads.1.current hq
  rw [← hleads.1.same q hq]
  exact (Resolver.effect_read q _).trans (if_pos hlater)

/-- Another registry is loaded if it has to be. -/
theorem loadOnce_obeys (hfetch : D.Fetches fetch) {s : Building} (hs : D.Working later s.ground) :
    Obeys (D.replay later).rule (loadOnce fetch D.trail q) s fun _ t => t.store.Current q := by
  refine .get_bind ?_
  by_cases hmem : q ∈ s.dependencies
  · have hcontains : s.dependencies.contains q = true := List.contains_iff_mem.mpr hmem
    simp only [hcontains]
    exact .pure hs (hs.depends q hmem)
  · have hcontains : s.dependencies.contains q = false :=
      Bool.eq_false_iff.mpr fun h => hmem (List.contains_iff_mem.mp h)
    simp only [hcontains]
    refine (Build.ofOutcome_obeys (checkCycle D.trail q) hs).bind fun _ t ht _ h => ?_
    obtain ⟨hcheck, rfl⟩ := h
    have hload := hfetch q t.store (checkCycle_eq_ok.mp hcheck) ht.keeping
    have hstep : Obeys (D.replay later).rule (Build.onStore (fetch q)) t fun _ u => u.store.Current q :=
      .of_effect (Build.effect_onStore (fetch q) t) (ht.fetched hload.inv hload.le) ⟨hload.le.mono ht.since, rfl⟩
        fun a ha => hload.ok a _ (Prod.ext ha rfl)
    refine hstep.bind fun _ u hu _ hcurrent => .modify ?_ ⟨.refl _ _, rfl⟩ hcurrent
    refine { hu with depends := fun q' hq' => ?_ }
    rcases List.mem_append.mp hq' with hq' | hq'
    · exact hu.depends q' hq'
    · rw [List.mem_singleton.mp hq']
      exact hcurrent

/-- What another registry holds is read where it is current. -/
theorem depend_obeys (hfetch : D.Fetches fetch) {s : Building} (hs : D.Working later s.ground) :
    Obeys (D.replay later).rule (depend fetch D.trail q) s fun c t => t.store.Current q ∧ c = (t.store.registry q).contents :=
  (loadOnce_obeys hfetch hs).bind fun _ _ ht _ hcurrent => .get_bind (.pure ht ⟨hcurrent, rfl⟩)

/-- Later stores read the same, and all bits that are read can be found from then on. -/
theorem depend_echoes (hfetch : D.Fetches fetch) {s : Building} (hs : D.Working later s.ground) :
    (D.replay later).Echoes (depend fetch D.trail q) s (fun _ => D.settled.depend q) fun c t =>
      ∀ b ∈ c.bits.items, Known D.own t.store b := by
  refine (depend_obeys hfetch hs).imp fun c t ht _ ⟨hcurrent, hc⟩ => ?_
  subst hc
  exact ⟨fun b hb => Working.known ht hcurrent hb, fun hleads => read_repeats hcurrent hleads⟩

theorem serves (hfetch : D.Fetches fetch) : (D.replay later).Serves (D.resolver fetch) D.settled where
  library := rfl
  path := rfl
  bits := rfl
  constants := rfl
  session _ _ hg hahead := ⟨Working.session hg hahead, .session hahead⟩
  still {_ h} hg hle hh := by
    have := hle.choices
    have := hh.1.choices
    have := hg.keeping.choices
    have : later.session.choices = D.count := hh.2
    omega
  sees_session σ hu _ := by
    obtain ⟨_, rfl⟩ := hu
    exact ⟨σ, rfl⟩
  knows_mono hle hb := hb.mono hle.defaults
  own _ hg := hg.found
  depend _ _ _ hs := depend_echoes hfetch hs

/-- The defaults of a bit are there already and sound, or they are worked out and kept. -/
theorem defaults_echo (hfetch : D.Fetches fetch) (room : Nat) {s : Building} (hs : D.Working later s.ground)
    (hb : Known D.own s.store b)
    (hoverlay : ∀ trail b sel t, D.Working later t.ground → t.trail = trail → Known D.own t.store b →
      (D.replay later).Echoes (Resolver.overlayBy ((D.resolver fetch).ofChoice room) b sel) t
        (fun n => Resolver.overlayBy (D.afresh n) b sel) fun _ _ => True) :
    (D.replay later).Echoes ((D.resolver fetch).ofChoice (room + 1) b .defaults) s (fun n => D.afresh n b .defaults)
      fun _ _ => True := by
  refine .get_bind ?_
  split
  · rename_i known hknown
    refine .pure hs ⟨trivial, fun hleads => ?_⟩
    rcases hb with hb | ⟨hother, _⟩
    · exact hs.sound b hb known hknown hleads
    · exact repeats_lent hother (hleads.1.defaults _ known hknown) D.settled
  · rename_i hnone
    have hown : b ∈ D.own := hb.resolve_right fun ⟨_, v, hv⟩ => by cases hnone.symm.trans hv
    have hrun : ∀ context, (D.replay later).Echoes (Build.within context
        (Resolver.visiting (Resolver.keyOf b .defaults)
          ((D.resolver fetch).ofDefaults (Resolver.overlayBy ((D.resolver fetch).ofChoice room)) b))) s
        (fun n => D.afresh n b .defaults) fun _ _ => True := fun context =>
      .within_left _ (.visiting hs fun trail _ => .of_succ (Resolver.ofChoiceAfresh_own hown D.settled)
        (Resolver.ofDefaults_echoes (serves hfetch) (hoverlay trail) b hs rfl))
    refine Obeys.bind (hrun _) fun v t ht _ hv => ?_
    have hafter : (D.replay later).le t.ground (t.store.putDefaults b.info.id v, t.dependencies) :=
      Gains.putDefaults (D.young b hown) v
    have hput : Obeys (D.replay later).rule
        (modifyThe Building fun s => { s with store := s.store.putDefaults b.info.id v }) t fun _ u =>
          (D.replay later).le t.ground u.ground :=
      .modify (Working.putDefaults ht hown hv.2) ⟨hafter, rfl⟩ hafter
    refine hput.bind fun _ u hu _ hle => .pure hu ⟨trivial, fun hleads => ?_⟩
    exact hv.2 ((D.replay later).fair_of_le hle hleads)

/-- A preset comes to what it comes to afresh. -/
theorem ofChoice_echoes (hfetch : D.Fetches fetch) (room : Nat) (choice : PresetChoice) {s : Building}
    (hs : D.Working later s.ground) (hb : Known D.own s.store b) :
    (D.replay later).Echoes ((D.resolver fetch).ofChoice room b choice) s
      (fun n => D.afresh n b choice) fun _ _ => True :=
  Resolver.ofChoice_echoes (serves hfetch) (fun _ _ _ _ => rfl)
    (fun room _ _ hs hb hoverlay => defaults_echo hfetch room hs hb hoverlay) room choice hs hb

end Making

end Load

end Bitpress
