import Bitpress.Proofs.Preset.Walk
import Bitpress.Proofs.Steady

/-!
Resolving queries once more, in another state and with other means.

A `Replay` says what a resolution keeps on its ground, which grounds it may reach
to count as fair, and in which states the other computation runs. That one is a
family of computations with more and more room. A resolution echoes in the family
(`Replay.Echoes`) if, wherever it comes to a result in a fair way, all those with
enough room come to the same result, in every state in which they may run.

Two resolvers that search the same bits and constants, and that are lent the same
contents by other registries (`Replay.Serves`), run the same queries to the same
results if the presets that the queries select do (`Resolver.run_echoes`).
-/

namespace Bitpress

variable {α β : Type}

theorem Resolver.dropLast_of_enter {trail trail' : List PresetKey} {key : PresetKey}
    (h : enter trail key = .ok trail') : trail'.dropLast = trail := by
  unfold enter at h
  split at h
  · cases h
    exact List.dropLast_concat
  · cases h

theorem Build.ofOutcome_obeys {R : Rule Building} {s : Building} (x : Outcome α) (hs : R.inv s) :
    Obeys R (Build.ofOutcome x) s fun a t => x = .ok a ∧ t = s :=
  .of_effect (Build.effect_ofOutcome x s) hs (R.refl s) fun _ ha => ⟨ha, rfl⟩

structure Replay where
  inv : Ground → Prop
  le : Ground → Ground → Prop
  fair : Ground → Prop
  /-- The other computation may run in a state. -/
  sees : Building → Prop
  /-- Bits that can be found on a ground. -/
  knows : Ground → Bit → Prop
  refl : ∀ g, le g g
  trans : ∀ {f g h}, le f g → le g h → le f h
  fair_of_le : ∀ {g h}, le g h → fair h → fair g

/-- The computations with enough room come to a result, wherever they may run. -/
def Repeats (sees : Building → Prop) (y : Nat → Build α) (a : α) : Prop :=
  ∃ least, ∀ n, least ≤ n → ∀ u, sees u → ∃ v, effect (y n) u = (.ok a, v) ∧ sees v

namespace Repeats

variable {sees : Building → Prop} {y : Nat → Build α} {a : α}

theorem pure (a : α) : Repeats sees (fun _ => Pure.pure a) a := ⟨0, fun _ _ u hu => ⟨u, rfl, hu⟩⟩

theorem bind {g : Nat → α → Build β} {b : β} (hy : Repeats sees y a) (hg : Repeats sees (fun n => g n a) b) :
    Repeats sees (fun n => y n >>= g n) b := by
  obtain ⟨least, hy⟩ := hy
  obtain ⟨least', hg⟩ := hg
  refine ⟨max least least', fun n hn u hu => ?_⟩
  obtain ⟨v, ha, hv⟩ := hy n (Nat.le_trans (Nat.le_max_left ..) hn) u hu
  obtain ⟨w, hb, hw⟩ := hg n (Nat.le_trans (Nat.le_max_right ..) hn) v hv
  exact ⟨w, effect_bind_eq_ok.mpr ⟨a, v, ha, hb⟩, hw⟩

/-- Leaving out the first member of a family changes nothing. -/
theorem of_succ {z : Nat → Build α} (hz : ∀ n, z (n + 1) = y n) (hy : Repeats sees y a) : Repeats sees z a := by
  obtain ⟨least, hy⟩ := hy
  refine ⟨least + 1, fun n hn u hu => ?_⟩
  obtain ⟨m, rfl⟩ : ∃ m, n = m + 1 := ⟨n - 1, by omega⟩
  rw [hz]
  exact hy m (by omega) u hu

theorem within (context : String) (hy : Repeats sees y a) : Repeats sees (fun n => Build.within context (y n)) a := by
  obtain ⟨least, hy⟩ := hy
  refine ⟨least, fun n hn u hu => ?_⟩
  obtain ⟨v, ha, hv⟩ := hy n hn u hu
  refine ⟨v, ?_, hv⟩
  unfold Build.within
  rw [effect_tryCatch, ha]

/-- What a steady step has come to without a choice. -/
theorem press {x : Press α} {s t : Session} (hx : x.Steady) (h : effect x s = (.ok a, t)) (hchoices : t.choices = s.choices)
    (hsees : ∀ {u} σ, sees u → σ.choices = u.store.session.choices →
      sees { u with store := { u.store with session := σ } }) : Repeats sees (fun _ => Build.press x) a := by
  refine ⟨0, fun _ _ u hu => ?_⟩
  obtain ⟨σ, hσ, hsame⟩ := hx.same s a t h hchoices u.store.session
  exact ⟨_, by rw [Build.effect_press, hσ], hsees σ hu hsame⟩

end Repeats

namespace Replay

variable (S : Replay)

/-- Steps of a build leave the trail as it is. -/
def rule : Rule Building where
  inv s := S.inv s.ground
  le s t := S.le s.ground t.ground ∧ t.trail = s.trail
  refl s := ⟨S.refl s.ground, rfl⟩
  trans h h' := ⟨S.trans h.1 h'.1, h'.2.trans h.2⟩

/-- What a resolution comes to in a fair way is repeated. -/
abbrev Echoes (x : Build α) (s : Building) (y : Nat → Build α) (post : α → Building → Prop) : Prop :=
  Obeys S.rule x s fun a t => post a t ∧ (S.fair t.ground → Repeats S.sees y a)

/-- Two resolvers serve a replay: they search the same, the replay takes what resolving does to the session, and
other registries lend both the same. -/
structure Serves (r r' : Resolver) : Prop where
  library : r'.library = r.library
  path : r'.path = r.path
  bits : r'.bits = r.bits
  constants : r'.constants = r.constants
  session : ∀ g σ, S.inv g → Press.ahead.le g.1.session σ →
    S.inv ({ g.1 with session := σ }, g.2) ∧ S.le g ({ g.1 with session := σ }, g.2)
  still : ∀ {g h}, S.inv g → S.le g h → S.fair h → h.1.session.choices = g.1.session.choices
  sees_session : ∀ {u} σ, S.sees u → σ.choices = u.store.session.choices →
    S.sees { u with store := { u.store with session := σ } }
  knows_mono : ∀ {g h b}, S.le g h → S.knows g b → S.knows h b
  own : ∀ g, S.inv g → ∀ b ∈ r.bits.items, S.knows g b
  depend : ∀ p s, p ≠ r.path → S.inv s.ground →
    S.Echoes (r.depend p) s (fun _ => r'.depend p) fun c t => ∀ b ∈ c.bits.items, S.knows t.ground b

/-! ### Echoes -/

namespace Echoes

variable {S} {s : Building} {x : Build α} {y : Nat → Build α} {post : α → Building → Prop}

theorem pure {a : α} (hs : S.inv s.ground) (h : post a s) : S.Echoes (Pure.pure a) s (fun _ => Pure.pure a) post :=
  Obeys.pure hs ⟨h, fun _ => .pure a⟩

theorem throw {e : Error} (hs : S.inv s.ground) : S.Echoes (MonadExcept.throw e : Build α) s y post := Obeys.throw hs

theorem bind {f : α → Build β} {g : Nat → α → Build β} {post' : β → Building → Prop} (hx : S.Echoes x s y post)
    (hf : ∀ a t, S.inv t.ground → S.le s.ground t.ground → t.trail = s.trail → post a t →
      S.Echoes (f a) t (fun n => g n a) post') : S.Echoes (x >>= f) s (fun n => y n >>= g n) post' := by
  refine Obeys.bind hx fun a t ht hle ha => ?_
  refine Obeys.imp (hf a t ht hle.1 hle.2 ha.1) fun b u _ hle' hb => ⟨hb.1, fun hu => ?_⟩
  exact (ha.2 (S.fair_of_le hle'.1 hu)).bind (hb.2 hu)

theorem imp {post' : α → Building → Prop} (hx : S.Echoes x s y post)
    (h : ∀ a t, S.inv t.ground → S.le s.ground t.ground → post a t → post' a t) : S.Echoes x s y post' :=
  Obeys.imp hx fun a t ht hle ha => ⟨h a t ht hle.1 ha.1, ha.2⟩

/-- The error of the first computation alone is put in other words. -/
theorem within_left (context : String) (hx : S.Echoes x s y post) : S.Echoes (Build.within context x) s y post :=
  Obeys.rethrow hx

/-- Leaving out the first of the other computations changes nothing. -/
theorem of_succ {z : Nat → Build α} (hz : ∀ n, z (n + 1) = y n) (hx : S.Echoes x s y post) : S.Echoes x s z post :=
  Obeys.imp hx fun _ _ _ _ ha => ⟨ha.1, fun hu => (ha.2 hu).of_succ hz⟩

theorem within (context : String) (hx : S.Echoes x s y post) :
    S.Echoes (Build.within context x) s (fun n => Build.within context (y n)) post :=
  Obeys.imp (Obeys.rethrow hx) fun _ _ _ _ ha => ⟨ha.1, fun hu => (ha.2 hu).within context⟩

theorem ofOutcome (r : Outcome α) (hs : S.inv s.ground) :
    S.Echoes (Build.ofOutcome r) s (fun _ => Build.ofOutcome r) fun a _ => r = .ok a := by
  cases r with
  | error e => exact .throw hs
  | ok a => exact .pure hs rfl

theorem press {r r' : Resolver} (hS : S.Serves r r') {x : Press α} (hx : x.Steady) (hs : S.inv s.ground) :
    S.Echoes (Build.press x) s (fun _ => Build.press x) fun a _ => ∃ σ, (effect x σ).1 = .ok a := by
  have hadvances := hx.advances s.store.session
  obtain ⟨hinv, hle⟩ := hS.session s.ground _ hs hadvances.le
  refine .of_effect (Build.effect_press x s) hinv ⟨hle, rfl⟩ fun a ha => ⟨⟨_, ha⟩, fun hfair => ?_⟩
  exact .press hx (Prod.ext ha rfl) (hS.still hs hle hfair) fun σ hu => hS.sees_session σ hu

theorem foldlM {f : β → α → Build β} {g : Nat → β → α → Build β} {xs : List α} (hs : S.inv s.ground)
    (hf : ∀ b, ∀ a ∈ xs, ∀ t, S.inv t.ground → S.le s.ground t.ground → t.trail = s.trail →
      S.Echoes (f b a) t (fun n => g n b a) fun _ _ => True) (b : β) :
    S.Echoes (xs.foldlM f b) s (fun n => xs.foldlM (g n) b) fun _ _ => True := by
  induction xs generalizing s b with
  | nil => exact .pure hs trivial
  | cons a rest ih =>
    refine .bind (hf b a (List.mem_cons_self ..) s hs (S.refl _) rfl) fun b t ht hle htrail _ => ?_
    exact ih ht (fun b a ha u hu hle' htrail' => hf b a (List.mem_cons_of_mem _ ha) u hu (S.trans hle hle')
      (htrail'.trans htrail)) b

theorem mapM {f : α → Build β} {g : Nat → α → Build β} {xs : List α} (hs : S.inv s.ground)
    (hf : ∀ a ∈ xs, ∀ t, S.inv t.ground → S.le s.ground t.ground → t.trail = s.trail →
      S.Echoes (f a) t (fun n => g n a) fun _ _ => True) :
    S.Echoes (xs.mapM f) s (fun n => xs.mapM (g n)) fun _ _ => True := by
  induction xs generalizing s with
  | nil => exact .pure hs trivial
  | cons a rest ih =>
    simp only [List.mapM_cons]
    refine .bind (hf a (List.mem_cons_self ..) s hs (S.refl _) rfl) fun b t ht hle htrail _ => ?_
    refine .bind (ih ht fun a ha u hu hle' htrail' => hf a (List.mem_cons_of_mem _ ha) u hu (S.trans hle hle')
      (htrail'.trans htrail)) fun bs u hu _ _ _ => .pure hu trivial

/-- A preset is on the trail for the first computation only. -/
theorem visiting {key : PresetKey} (hs : S.inv s.ground)
    (hx : ∀ trail, Resolver.enter s.trail key = .ok trail → S.Echoes x { s with trail } y fun _ _ => True) :
    S.Echoes (Resolver.visiting key x) s y fun _ _ => True := by
  have heffect := Resolver.effect_visiting key x s
  cases henter : Resolver.enter s.trail key with
  | error e =>
    rw [henter] at heffect
    exact .of_effect heffect hs ⟨S.refl _, rfl⟩ fun a ha => by cases ha
  | ok trail =>
    rw [henter] at heffect
    have hobeys := hx trail henter
    have htrail : (effect x { s with trail }).2.trail.dropLast = s.trail := by
      rw [hobeys.le.2]
      exact Resolver.dropLast_of_enter henter
    refine .of_effect heffect hobeys.inv ⟨hobeys.le.1, htrail⟩ fun a ha => ?_
    exact hobeys.ok a (effect x { s with trail }).2 (Prod.ext ha rfl)

end Echoes

end Replay

/-! ### Resolvers -/

namespace Resolver

variable {S : Replay} {r r' : Resolver} {s : Building} {trail : List PresetKey}
  {overlay : Bit → Option PresetSelector → Build Context} {overlay' : Nat → Bit → Option PresetSelector → Build Context}
  {run : Table Tree → Table Tree → Build Context} {run' : Nat → Table Tree → Table Tree → Build Context}

open Replay

section Serves
variable (hS : S.Serves r r')

include hS

/-- The bits that a query is about can be found. -/
theorem contentsFor_echoes (reference : Option String) (hs : S.inv s.ground) :
    S.Echoes (r.contentsFor reference) s (fun _ => r'.contentsFor reference) fun contents t =>
      ∀ b ∈ ((contents.map Contents.bits).getD r.bits).items, S.knows t.ground b := by
  unfold contentsFor
  rw [hS.library, hS.path]
  cases reference with
  | none => exact .pure hs (hS.own s.ground hs)
  | some reference =>
    refine .bind (.ofOutcome _ hs) fun p t ht _ _ _ => ?_
    split
    · exact .pure ht (hS.own t.ground ht)
    · rename_i hne
      exact .bind (hS.depend p t hne ht) fun c u hu _ _ hc => .pure hu hc

theorem constantsOf_echoes (q : QuerySpec) (hs : S.inv s.ground) :
    S.Echoes (r.constantsOf q) s (fun _ => r'.constantsOf q) fun _ _ => True := by
  unfold constantsOf
  rw [hS.constants]
  refine .bind (contentsFor_echoes hS q.registry hs) fun contents t ht _ _ _ => ?_
  exact (Echoes.press hS (Query.matching_steady _ q) ht).imp fun _ _ _ _ _ => trivial

omit hS in
theorem variablesOf_echoes (t : Table Tree) (hs : S.inv s.ground)
    (hrun : ∀ q, S.Echoes (run q []) s (fun n => run' n q []) fun _ _ => True) :
    S.Echoes (variablesOf run t) s (fun n => variablesOf (run' n) t) fun _ _ => True := by
  unfold variablesOf
  dsimp only
  split
  · exact .pure hs trivial
  · exact .bind (hrun _) fun _ _ hu _ _ _ => .pure hu trivial

variable (hoverlay : ∀ b sel t, S.inv t.ground → t.trail = trail → S.knows t.ground b →
    S.Echoes (overlay b sel) t (fun n => overlay' n b sel) fun _ _ => True)

include hoverlay

/-- Bits that are known are bound to the same contexts. -/
theorem boundTo_echoes (q : QuerySpec) {found : List Bit} (ofQuery : Context) (clause : Context × Context)
    (hs : S.inv s.ground) (htrail : s.trail = trail) (hfound : ∀ b ∈ found, S.knows s.ground b) :
    S.Echoes (found.mapM fun b => do
      let ofPreset ← overlay b q.preset
      return (⟨b, ((Context.merge ofPreset ofQuery).merge clause.1).merge clause.2, q.metadata⟩ : Block)) s
      (fun n => found.mapM fun b => do
        let ofPreset ← overlay' n b q.preset
        return (⟨b, ((Context.merge ofPreset ofQuery).merge clause.1).merge clause.2, q.metadata⟩ : Block))
      fun _ _ => True := by
  refine .mapM hs fun b hb t ht hle htrail' => ?_
  exact .bind (hoverlay b q.preset t ht (htrail'.trans htrail) (hS.knows_mono hle (hfound b hb)))
    fun _ _ hu _ _ _ => .pure hu trivial

theorem blocksOf_echoes (q : QuerySpec) (hs : S.inv s.ground) (htrail : s.trail = trail)
    (hrun : ∀ q t, S.inv t.ground → t.trail = trail → S.Echoes (run q []) t (fun n => run' n q []) fun _ _ => True) :
    S.Echoes (r.blocksOf overlay run q) s (fun n => r'.blocksOf (overlay' n) (run' n) q) fun _ _ => True := by
  unfold blocksOf
  rw [hS.bits]
  refine .bind (contentsFor_echoes hS q.registry hs) fun contents t ht _ htrail₁ hknown => ?_
  refine .bind (Echoes.press hS (Query.matching_steady _ q) ht) fun found u hu hle htrail₂ ⟨σ, hσ⟩ => ?_
  have hfound : ∀ b ∈ found, S.knows u.ground b := fun b hb =>
    hS.knows_mono hle (hknown b (((Query.matching_comes _ q σ).ok found _ (Prod.ext hσ rfl)).2.2 b hb))
  have hu_trail : u.trail = trail := htrail₂.trans (htrail₁.trans htrail)
  split
  · exact .pure hu trivial
  · refine .bind (variablesOf_echoes q.context hu fun inner => hrun inner u hu hu_trail)
      fun ofQuery v hv hle htrail₃ _ => ?_
    have hv_trail : v.trail = trail := htrail₃.trans hu_trail
    cases q.with with
    | none =>
      have hpure : S.Echoes (Pure.pure (([], []) : Context × Context)) v (fun _ => Pure.pure ([], [])) fun _ _ => True :=
        .pure hv trivial
      exact .bind hpure fun clause w hw hle' htrail _ => boundTo_echoes hS hoverlay q ofQuery clause hw
        (htrail.trans hv_trail) fun b hb => hS.knows_mono (S.trans hle hle') (hfound b hb)
    | some clause =>
      refine .bind (variablesOf_echoes clause.context hv fun inner => hrun inner v hv hv_trail)
        fun static w hw hle' htrail _ => ?_
      have hw_trail : w.trail = trail := htrail.trans hv_trail
      refine .bind (hrun clause.queries w hw hw_trail) fun found z hz hle'' htrail _ => ?_
      have hpure : S.Echoes (Pure.pure (static, found)) z (fun _ => Pure.pure (static, found)) fun _ _ => True :=
        .pure hz trivial
      refine .bind hpure fun clause z' hz' hle₃ htrail' _ => ?_
      exact boundTo_echoes hS hoverlay q ofQuery clause hz' (htrail'.trans (htrail.trans hw_trail)) fun b hb =>
        hS.knows_mono (S.trans hle (S.trans hle' (S.trans hle'' hle₃))) (hfound b hb)

theorem resultOf_echoes (name : String) (t : Tree) (hs : S.inv s.ground) (htrail : s.trail = trail)
    (hrun : ∀ q t, S.inv t.ground → t.trail = trail → S.Echoes (run q []) t (fun n => run' n q []) fun _ _ => True) :
    S.Echoes (r.resultOf overlay run name t) s (fun n => r'.resultOf (overlay' n) (run' n) name t) fun _ _ => True := by
  refine .bind (.ofOutcome _ hs) fun entry u hu _ htrail₁ _ => ?_
  refine .bind (.mapM hu fun q _ v hv _ htrail₂ => ?_) fun groups v hv _ _ _ => .pure hv trivial
  have hv_trail : v.trail = trail := htrail₂.trans (htrail₁.trans htrail)
  split
  · exact .bind (blocksOf_echoes hS hoverlay q hv hv_trail hrun) fun _ _ hz _ _ _ => .pure hz trivial
  · exact .bind (constantsOf_echoes hS q hv) fun _ _ hz _ _ _ => .pure hz trivial

theorem runNested_echoes (depth : Nat) (queries compose : Table Tree) (hs : S.inv s.ground) (htrail : s.trail = trail) :
    S.Echoes (r.runNested overlay depth queries compose) s (fun n => r'.runNested (overlay' n) depth queries compose)
      fun _ _ => True := by
  induction depth generalizing queries compose s with
  | zero => exact .throw hs
  | succ depth ih =>
    refine .bind (.foldlM hs (fun results e _ t ht _ htrail₁ => ?_) []) fun results t ht _ _ _ => ?_
    · refine .bind (.within _ (resultOf_echoes hS hoverlay e.1 e.2 ht (htrail₁.trans htrail) fun q u hu hu_trail => ?_))
        fun _ _ hu _ _ _ => .pure hu trivial
      exact ih q [] hu hu_trail
    · split
      · exact .pure ht trivial
      · refine .bind (.ofOutcome _ ht) fun specs u hu _ _ _ => ?_
        exact (Echoes.press hS (Compose.run_steady results specs) hu).imp fun _ _ _ _ _ => trivial

theorem run_echoes (queries compose : Table Tree) (hs : S.inv s.ground) (htrail : s.trail = trail) :
    S.Echoes (r.run overlay queries compose) s (fun n => r'.run (overlay' n) queries compose) fun _ _ => True :=
  runNested_echoes hS hoverlay _ queries compose hs htrail

theorem ofDefaults_echoes (b : Bit) (hs : S.inv s.ground) (htrail : s.trail = trail) :
    S.Echoes (r.ofDefaults overlay b) s (fun n => r'.ofDefaults (overlay' n) b) fun _ _ => True :=
  .bind (run_echoes hS hoverlay _ _ hs htrail) fun _ _ ht _ _ _ => .pure ht trivial

theorem ofPreset_echoes (b : Bit) (p : PresetDecl) (hs : S.inv s.ground) (htrail : s.trail = trail) :
    S.Echoes (r.ofPreset overlay b p) s (fun n => r'.ofPreset (overlay' n) b p) fun _ _ => True := by
  refine .bind (.ofOutcome _ hs) fun tree t ht _ htrail₁ _ => ?_
  have ht_trail : t.trail = trail := htrail₁.trans htrail
  refine .bind (variablesOf_echoes _ ht fun q => run_echoes hS hoverlay q [] ht ht_trail) fun context u hu _ htrail₂ _ => ?_
  exact .bind (run_echoes hS hoverlay _ _ hu (htrail₂.trans ht_trail)) fun _ _ hv _ _ _ => .pure hv trivial

omit hoverlay in
theorem overlayBy_echoes {resolve : Bit → PresetChoice → Build Context}
    {resolve' : Nat → Bit → PresetChoice → Build Context} (b : Bit) (selector : Option PresetSelector) (hs : S.inv s.ground)
    (hresolve : ∀ choice t, PresetChoice.choose b selector = .ok choice → S.inv t.ground → S.le s.ground t.ground →
      t.trail = s.trail → S.Echoes (resolve b choice) t (fun n => resolve' n b choice) fun _ _ => True) :
    S.Echoes (overlayBy resolve b selector) s (fun n => overlayBy (resolve' n) b selector) fun _ _ => True := by
  refine .bind (Echoes.press hS (Preset.chosen_steady b selector) hs) fun choice t ht hle htrail ⟨σ, hσ⟩ => ?_
  exact hresolve choice t ((Preset.chosen_comes b selector σ).ok choice _ (Prod.ext hσ rfl)).2.2 ht hle htrail

omit hoverlay in
/-- With more and more room, presets come to what they come to with just enough, if defaults do. -/
theorem ofChoice_echoes {resolve' : Nat → Bit → PresetChoice → Build Context}
    (hdeclared : ∀ n b place p, resolve' (n + 1) b (.declared place p) = r'.ofPreset (overlayBy (resolve' n)) b p)
    (hdefaults : ∀ room b s, S.inv s.ground → S.knows s.ground b →
      (∀ trail b sel t, S.inv t.ground → t.trail = trail → S.knows t.ground b →
        S.Echoes (overlayBy (r.ofChoice room) b sel) t (fun n => overlayBy (resolve' n) b sel) fun _ _ => True) →
      S.Echoes (r.ofChoice (room + 1) b .defaults) s (fun n => resolve' n b .defaults) fun _ _ => True)
    (room : Nat) {b : Bit} (choice : PresetChoice) (hs : S.inv s.ground) (hb : S.knows s.ground b) :
    S.Echoes (r.ofChoice room b choice) s (fun n => resolve' n b choice) fun _ _ => True := by
  induction room generalizing b choice s with
  | zero => exact .throw hs
  | succ room ih =>
    have hoverlay : ∀ trail b sel t, S.inv t.ground → t.trail = trail → S.knows t.ground b →
        S.Echoes (overlayBy (r.ofChoice room) b sel) t (fun n => overlayBy (resolve' n) b sel) fun _ _ => True :=
      fun _ b sel t ht _ hb => overlayBy_echoes hS b sel ht fun choice u _ hu hle _ => ih choice hu (hS.knows_mono hle hb)
    cases choice with
    | defaults => exact hdefaults room b s hs hb hoverlay
    | declared place p =>
      refine .within_left _ (.visiting hs fun trail _ => .of_succ (fun n => hdeclared n b place p) ?_)
      exact ofPreset_echoes hS (hoverlay trail) b p hs rfl

end Serves

end Resolver

end Bitpress
