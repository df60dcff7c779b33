import Bitpress.Proofs.Memo.Settled
import Bitpress.Proofs.Preset.Query

/-!
What queries come to when all is loaded.

After a request, running a query changes nothing but the session. A step yields a
result (`Store.Yields`) if it comes to it wherever it is run, without an unseeded
choice. Whether steps in a row yield something can be told from each of them
(`Load.Loaded.yields_bind`), and queries yield what each of them does
(`Load.Loaded.yields_run`).
-/

namespace Bitpress

open Outcome

variable {α β : Type}

/-- A build in a store where all is loaded: presets are being resolved, and no unseeded choice has been made. -/
structure Store.Quiet (t : Store) (trail : List PresetKey) (u : Building) : Prop where
  store : u.store = { t with session := u.store.session }
  choices : u.store.session.choices = t.session.choices
  trail : u.trail = trail

/-- A step comes to a result wherever it is run. -/
def Store.Yields (t : Store) (trail : List PresetKey) (x : Build α) (a : α) : Prop :=
  ∀ u, t.Quiet trail u → ∃ v, effect x u = (.ok a, v) ∧ t.Quiet trail v

section Results
variable {ε : Type} (t : Store) (trail : List PresetKey) (ask : ε → Build QueryResult)

/-- The queries of one name come to a result. -/
def Store.Answered (e : ε) : Prop := ∃ result, t.Yields trail (ask e) result

/-- The result that the queries of one name yield. -/
noncomputable def Store.answer (e : ε) : QueryResult := Classical.epsilon fun result => t.Yields trail (ask e) result

/-- What queries yield, added to what others have found. -/
noncomputable def Store.answers (ask : String × Tree → Build QueryResult) (queries : Table Tree)
    (found : Table QueryResult) : Table QueryResult :=
  queries.foldl (fun found e => found.put e.1 (t.answer trail ask e)) found

end Results

theorem Store.quiet_start (t : Store) (trail : List PresetKey) : t.Quiet trail { store := t, trail } := ⟨rfl, rfl, rfl⟩

namespace Load.Loaded

open Store Replay

variable {l : Library} {count : Nat} {t : Store} {p : Location} {trail : List PresetKey} {x : Build α} {a : α} {b : Bit}
  {s u v : Building}

theorem within_quiet (t : Store) (trail : List PresetKey) : Within t (t.Quiet trail) where
  store hu := hu.store
  session σ hu hσ := ⟨by rw [hu.store], hσ.trans hu.choices, hu.trail⟩

/-- A step does the same once more. -/
def Still (t : Store) (p : Location) (trail : List PresetKey) (x : Build α) : Prop :=
  ∀ s, (replay t p (t.Quiet trail)).inv s.ground → s.trail = trail →
    (replay t p (t.Quiet trail)).Echoes x s (fun _ => x) fun _ _ => True

namespace Still

theorem pure (a : α) : Still t p trail (Pure.pure a) := fun _ hs _ => .pure hs trivial

theorem bind {f : α → Build β} (hx : Still t p trail x) (hf : ∀ a, Still t p trail (f a)) : Still t p trail (x >>= f) :=
  fun s hs htrail => .bind (hx s hs htrail) fun a t ht _ htrail' _ => hf a t ht (htrail'.trans htrail)

/-- What a step comes to without an unseeded choice, it yields. -/
theorem yields (hx : Still t p trail x) (hu : t.Quiet trail u) (h : effect x u = (.ok a, v))
    (hchoices : v.store.session.choices ≤ t.session.choices) : t.Yields trail x a ∧ t.Quiet trail v := by
  have hobeys := hx u ⟨Nat.le_of_eq hu.choices.symm, hu.store⟩ hu.trail
  obtain ⟨hinv, hle⟩ := hobeys.after h
  obtain ⟨least, hrepeats⟩ := (hobeys.ok a v h).2 hchoices
  exact ⟨hrepeats least (Nat.le_refl _), hinv.2, Nat.le_antisymm hchoices hinv.1, hle.2.trans hu.trail⟩

/-- There are no choices to take back. -/
theorem choices_le (hx : Still t p trail x) (hs : (replay t p (t.Quiet trail)).inv s.ground) (htrail : s.trail = trail)
    (h : effect x s = (.ok a, v)) : s.store.session.choices ≤ v.store.session.choices :=
  ((hx s hs htrail).after h).2.1.2

end Still

theorem yields_pure {a a' : α} : t.Yields trail (pure a) a' ↔ a = a' := by
  refine ⟨fun h => ?_, fun h u hu => ⟨u, by rw [h]; rfl, hu⟩⟩
  obtain ⟨_, h, -⟩ := h _ (quiet_start t trail)
  cases h
  rfl

theorem yields_unique {a a' : α} (h : t.Yields trail x a) (h' : t.Yields trail x a') : a = a' := by
  obtain ⟨_, h, -⟩ := h _ (quiet_start t trail)
  obtain ⟨_, h', -⟩ := h' _ (quiet_start t trail)
  cases h.symm.trans h'
  rfl

theorem yields_answer {ε : Type} {ask : ε → Build QueryResult} {e : ε} (h : t.Answered trail ask e) :
    t.Yields trail (ask e) (t.answer trail ask e) := Classical.epsilon_spec h

theorem answer_eq {ε : Type} {ask : ε → Build QueryResult} {e : ε} {result : QueryResult}
    (h : t.Yields trail (ask e) result) : t.answer trail ask e = result :=
  yields_unique (yields_answer ⟨result, h⟩) h

/-- Steps in a row yield a result if each of them does. -/
theorem yields_bind {f : α → Build β} {b : β} (hx : Still t p trail x) (hf : ∀ a, Still t p trail (f a)) :
    t.Yields trail (x >>= f) b ↔ ∃ a, t.Yields trail x a ∧ t.Yields trail (f a) b := by
  constructor
  · intro h
    obtain ⟨w, h, hw⟩ := h _ (quiet_start t trail)
    obtain ⟨a, v, ha, hb⟩ := effect_bind_eq_ok.mp h
    have hstart := quiet_start t trail
    obtain ⟨hinv, hle⟩ := (hx _ ⟨Nat.le_refl _, rfl⟩ rfl).after ha
    have hv : v.store.session.choices ≤ t.session.choices :=
      Nat.le_trans ((hf a).choices_le hinv hle.2 hb) (Nat.le_of_eq hw.choices)
    obtain ⟨hyields, hquiet⟩ := hx.yields hstart ha hv
    exact ⟨a, hyields, ((hf a).yields hquiet hb (Nat.le_of_eq hw.choices)).1⟩
  · rintro ⟨a, ha, hb⟩ u hu
    obtain ⟨v, ha, hv⟩ := ha u hu
    obtain ⟨w, hb, hw⟩ := hb v hv
    exact ⟨w, effect_bind_eq_ok.mpr ⟨a, v, ha, hb⟩, hw⟩

theorem yields_ofOutcome {r : Outcome α} : t.Yields trail (Build.ofOutcome r) a ↔ r = .ok a := by
  refine ⟨fun h => ?_, fun h u hu => ⟨u, by rw [Build.effect_ofOutcome, h], hu⟩⟩
  obtain ⟨_, h, -⟩ := h _ (quiet_start t trail)
  rw [Build.effect_ofOutcome] at h
  exact congrArg Prod.fst h

theorem still_ofOutcome (r : Outcome α) : Still t p trail (Build.ofOutcome r) := fun _ hs _ =>
  (Echoes.ofOutcome r hs).imp fun _ _ _ _ _ => trivial

theorem yields_within (context : String) : t.Yields trail (Build.within context x) a ↔ t.Yields trail x a := by
  have heffect : ∀ u v, effect (Build.within context x) u = (.ok a, v) ↔ effect x u = (.ok a, v) := by
    intro u v
    unfold Build.within
    rw [effect_tryCatch]
    rcases effect x u with ⟨_ | _, _⟩
    · constructor <;> intro h <;> cases h
    · exact Iff.rfl
  unfold Yields
  simp only [heffect]

theorem Still.within (context : String) (hx : Still t p trail x) : Still t p trail (Build.within context x) :=
  fun s hs htrail => .within context (hx s hs htrail)

/-! ### Presets -/

theorem enter_quiet {key : PresetKey} {trail' : List PresetKey} (henter : Resolver.enter trail key = .ok trail')
    (hu : t.Quiet trail u) :
    effect (Resolver.visiting key x) u = ((effect x { u with trail := trail' }).1,
      { (effect x { u with trail := trail' }).2 with trail := (effect x { u with trail := trail' }).2.trail.dropLast }) := by
  rw [Resolver.effect_visiting, hu.trail, henter]

/-- A preset on the trail is resolved with a longer trail. -/
theorem yields_visiting {key : PresetKey} {trail' : List PresetKey} (henter : Resolver.enter trail key = .ok trail')
    (hx : Still t p trail' x) : t.Yields trail (Resolver.visiting key x) a ↔ t.Yields trail' x a := by
  constructor
  · intro h
    obtain ⟨v, h, hv⟩ := h _ (quiet_start t trail)
    rw [enter_quiet henter (quiet_start t trail)] at h
    obtain ⟨hresult, rfl⟩ := Prod.mk.inj h
    have hrun : effect x { store := t, trail := trail' } = (.ok a, (effect x { store := t, trail := trail' }).2) :=
      Prod.ext hresult rfl
    exact (hx.yields (quiet_start t trail') hrun (Nat.le_of_eq hv.choices)).1
  · intro h u hu
    obtain ⟨v, hstep, hv⟩ := h { u with trail := trail' } ⟨hu.store, hu.choices, rfl⟩
    refine ⟨{ v with trail := v.trail.dropLast }, ?_, hv.store, hv.choices, ?_⟩
    · rw [enter_quiet henter hu, hstep]
    · dsimp only
      rw [hv.trail, Resolver.dropLast_of_enter henter]

theorem still_visiting {key : PresetKey} (hx : ∀ trail', Resolver.enter trail key = .ok trail' → Still t p trail' x) :
    Still t p trail (Resolver.visiting key x) := by
  intro s hs htrail
  have heffect := Resolver.effect_visiting key x s
  rw [htrail] at heffect
  cases henter : Resolver.enter trail key with
  | error e =>
    rw [henter] at heffect
    exact .of_effect heffect hs ⟨Press.ahead.refl _, rfl⟩ fun _ h => by cases h
  | ok trail' =>
    rw [henter] at heffect
    have hstill := hx trail' henter
    have hobeys := hstill { s with trail := trail' } hs rfl
    have hback : (effect x { s with trail := trail' }).2.trail.dropLast = s.trail := by
      rw [hobeys.le.2, htrail]
      exact Resolver.dropLast_of_enter henter
    refine .of_effect heffect hobeys.inv ⟨hobeys.le.1, hback⟩ fun a ha => ⟨trivial, fun hfair => ?_⟩
    have hyields : t.Yields trail' x a := by
      obtain ⟨least, hrepeats⟩ := (hobeys.ok a _ (Prod.ext ha rfl)).2 hfair
      exact hrepeats least (Nat.le_refl _)
    exact ⟨0, fun _ _ => (yields_visiting henter hstill).mpr hyields⟩

theorem effect_kept {room : Nat} {r : Resolver} {v : Context} (hv : t.defaults? b.info.id = some v)
    (hs : s.store = { t with session := s.store.session }) : effect (r.ofChoice (room + 1) b .defaults) s = (.ok v, s) := by
  show effect (getThe Building >>= _) s = _
  rw [effect_bind, effect_get]
  dsimp only
  rw [(unchanged hs).2.2, hv]
  rfl

section Loaded
variable (h : Loaded l count t p)

include h

theorem still_overlayBy {resolve : Bit → PresetChoice → Build Context} {sel : Option PresetSelector}
    (hresolve : ∀ choice, Still t p trail (resolve b choice)) : Still t p trail (Resolver.overlayBy resolve b sel) :=
  fun _ hs htrail => Resolver.overlayBy_echoes (h.serves (within_quiet t trail)) b sel hs fun choice u _ hu _ htrail' =>
    hresolve choice u hu (htrail'.trans htrail)

/-- Resolving a preset does the same once more. -/
theorem still_ofChoice (room : Nat) (choice : PresetChoice) (hb : Known (t.own .bits p) t b) :
    Still t p trail ((t.resolver l p).ofChoice room b choice) := by
  induction room generalizing b choice trail with
  | zero => exact fun _ hs _ => .throw hs
  | succ room ih =>
    cases choice with
    | defaults =>
      intro s hs _
      obtain ⟨v, hv⟩ := h.exists_defaults hb
      refine .of_effect (effect_kept hv hs.2) hs ⟨Press.ahead.refl _, rfl⟩ fun a ha => ?_
      cases ha
      exact ⟨trivial, fun _ => ⟨0, fun _ _ u hu => ⟨u, effect_kept hv hu.store, hu⟩⟩⟩
    | declared place e =>
      refine .within _ (still_visiting fun trail' _ s hs htrail => ?_)
      exact Resolver.ofPreset_echoes (h.serves (within_quiet t trail'))
        (fun b sel s hs htrail hb => still_overlayBy h (fun choice => ih choice hb) s hs htrail) b e hs htrail

/-! ### Queries -/

theorem still_press {x : Press α} (hx : x.Steady) : Still t p trail (Build.press x) := fun _ hs _ =>
  (Echoes.press (h.serves (within_quiet t trail)) hx hs).imp fun _ _ _ _ _ => trivial

/-- What is made of the result of a step on the session. -/
theorem yields_press_map {x : Press α} (hx : x.Steady) (f : α → β) {b : β} :
    t.Yields trail (Build.press (f <$> x)) b ↔ ∃ a, t.Yields trail (Build.press x) a ∧ f a = b := by
  have hmap : Build.press (f <$> x) = Build.press x >>= fun a => pure (f a) := by
    refine funext fun s => (Build.effect_press (f <$> x) s).trans ?_
    show _ = effect (Build.press x >>= fun a => pure (f a)) s
    rw [effect_bind (Build.press x), Build.effect_press x, map_eq_pure_bind, effect_bind x]
    rcases effect x s.store.session with ⟨_ | a, σ⟩ <;> rfl
  rw [hmap, yields_bind (h.still_press hx) fun a => .pure (f a)]
  simp only [yields_pure]

variable {overlay : Bit → Option PresetSelector → Build Context}
  (hoverlay : ∀ b sel, Known (t.own .bits p) t b → Still t p trail (overlay b sel))

include hoverlay

theorem still_asked (e : String × Tree) : Still t p trail ((t.resolver l p).asked overlay e) :=
  .within _ fun _ hs htrail => Resolver.resultOf_echoes (h.serves (within_quiet t trail))
    (fun b sel s hs htrail hb => hoverlay b sel hb s hs htrail) e.1 e.2 hs htrail fun q _ hu htrail =>
      Resolver.runNested_echoes (h.serves (within_quiet t trail))
        (fun b sel s hs htrail hb => hoverlay b sel hb s hs htrail) _ q [] hu htrail

theorem still_run (queries compose : Table Tree) : Still t p trail ((t.resolver l p).run overlay queries compose) :=
  fun _ hs htrail => Resolver.run_echoes (h.serves (within_quiet t trail))
    (fun b sel s hs htrail hb => hoverlay b sel hb s hs htrail) queries compose hs htrail

theorem still_findings (queries : Table Tree) (found : Table QueryResult) :
    Still t p trail ((t.resolver l p).findings overlay queries found) := by
  induction queries generalizing found with
  | nil => exact .pure found
  | cons e rest ih => exact .bind (.bind (h.still_asked hoverlay e) fun _ => .pure _) ih

/-- Queries yield something if each of them does. -/
theorem yields_findings (queries : Table Tree) (found results : Table QueryResult) :
    t.Yields trail ((t.resolver l p).findings overlay queries found) results ↔
      (∀ e ∈ queries, t.Answered trail ((t.resolver l p).asked overlay) e) ∧
        t.answers trail ((t.resolver l p).asked overlay) queries found = results := by
  induction queries generalizing found with
  | nil =>
    refine yields_pure.trans ⟨fun h => ⟨fun e he => ?_, h⟩, fun h => h.2⟩
    cases he
  | cons e rest ih =>
    have hasked := h.still_asked hoverlay e
    have hone : Still t p trail (do
        let result ← (t.resolver l p).asked overlay e
        return found.put e.1 result) := .bind hasked fun _ => .pure _
    refine (yields_bind hone fun found => h.still_findings hoverlay rest found).trans ?_
    simp only [yields_bind hasked fun result => .pure (found.put e.1 result), yields_pure, List.forall_mem_cons]
    constructor
    · rintro ⟨_, ⟨result, hresult, rfl⟩, hrest⟩
      obtain ⟨hrest, hresults⟩ := (ih _).mp hrest
      rw [← answer_eq hresult] at hresults
      exact ⟨⟨⟨result, hresult⟩, hrest⟩, hresults⟩
    · rintro ⟨⟨hfirst, hrest⟩, hresults⟩
      exact ⟨_, ⟨_, yields_answer hfirst, rfl⟩, (ih _).mpr ⟨hrest, hresults⟩⟩

/-- Queries are composed of what they yield. -/
theorem yields_run (queries compose : Table Tree) (out : Context) :
    t.Yields trail ((t.resolver l p).run overlay queries compose) out ↔
      (∀ e ∈ queries, t.Answered trail ((t.resolver l p).asked overlay) e) ∧
        ∃ specs, ComposeSpec.readTable compose = .ok specs ∧
          t.Yields trail (Build.press (Compose.run (t.answers trail ((t.resolver l p).asked overlay) queries []) specs))
            out := by
  have hrest : ∀ results : Table QueryResult, Still t p trail (do
      if results.isEmpty && compose.isEmpty then return []
      Build.press (Compose.run results (← Build.ofOutcome (ComposeSpec.readTable compose)))) := by
    intro results
    split
    · exact .pure _
    · exact .bind (still_ofOutcome _) fun specs => h.still_press (Compose.run_steady results specs)
  rw [Resolver.run_eq, yields_bind (h.still_findings hoverlay queries []) hrest]
  simp only [h.yields_findings hoverlay, and_assoc, exists_and_left, exists_eq_left']
  refine and_congr_right fun _ => ?_
  split
  · rename_i hempty
    obtain ⟨hresults, hcompose⟩ := Bool.and_eq_true_iff.mp hempty
    have hnone : ∀ u, effect (Build.press (Compose.run [] [])) u = effect (pure []) u := fun u => Build.effect_press _ u
    have hyields : t.Yields trail (pure []) out ↔ t.Yields trail (Build.press (Compose.run [] [])) out := by
      unfold Yields
      simp only [hnone]
    rw [List.isEmpty_iff.mp hresults, List.isEmpty_iff.mp hcompose]
    exact hyields.trans ⟨fun hout => ⟨[], rfl, hout⟩, fun ⟨specs, hspecs, hout⟩ => by cases hspecs; exact hout⟩
  · simp only [yields_bind (still_ofOutcome _) fun specs => h.still_press (Compose.run_steady _ specs), yields_ofOutcome]

end Loaded

end Load.Loaded

end Bitpress
