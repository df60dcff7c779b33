import Bitpress.Proofs.Fault

/-!
What resolving does to a building.

Resolving queries has four effects: it changes the session, it remembers the
defaults of bits, it has registries loaded, and it fails. A passage that takes
the first two and is kept by the loads is kept by all of `Resolver`.
-/

namespace Bitpress

variable {α β : Type}

theorem Resolver.enter_fails (trail : List PresetKey) (key : PresetKey) :
    Outcome.Fails Error.Blameless (enter trail key) := by
  unfold enter
  split
  · exact .ok _
  · exact .error rfl

namespace Passage

/-- A passage of stores, for buildings. -/
def onStore (P : Passage Store) : Passage Building where
  ok b c := P.ok b.store c.store
  err e b c := P.err e b.store c.store
  refl b := P.refl b.store
  trans := P.trans
  fail h b := P.fail h b.store
  wrap := P.wrap
  trans_err := P.trans_err

/-- The passage takes changes of the session and new defaults. -/
structure Admits (P : Passage Store) : Prop where
  session : ∀ s session, P.ok s { s with session }
  defaults : ∀ s id c, P.ok s (s.putDefaults id c)

/-- The passage takes what resolving does to a building by itself. -/
structure Suits (Q : Passage Building) : Prop where
  session : ∀ b session, Q.ok b { b with store := { b.store with session } }
  defaults : ∀ b id c, Q.ok b { b with store := b.store.putDefaults id c }
  visiting : ∀ {α : Type} (key : PresetKey) {x : Build α}, Q.Keeps x → Q.Keeps (Resolver.visiting key x)

variable {P : Passage Store} {Q : Passage Building}

theorem Keeps.onStore {x : StoreM α} (hx : P.Keeps x) : P.onStore.Keeps (Build.onStore x) := by
  refine ⟨fun b => ?_⟩
  rw [Build.effect_onStore]
  rcases h : effect x b.store with ⟨r, t⟩
  cases r with
  | error e => exact hx.of_error h
  | ok a => exact hx.of_ok h

/-- A passage that does not look at the trail of presets is kept by a visit to one of them. -/
theorem Keeps.visiting {x : Build α} (hok : ∀ b c longer back, Q.ok { b with trail := longer } c →
    Q.ok b { c with trail := back }) (herr : ∀ e b c longer back, Q.err e { b with trail := longer } c →
    Q.err e b { c with trail := back }) (key : PresetKey) (hx : Q.Keeps x) : Q.Keeps (Resolver.visiting key x) := by
  refine ⟨fun b => ?_⟩
  rw [Resolver.effect_visiting]
  cases hentered : Resolver.enter b.trail key with
  | error e => exact Q.fail (Resolver.enter_fails b.trail key e hentered) b
  | ok longer =>
    dsimp only
    rcases h : effect x { b with trail := longer } with ⟨_ | a, c⟩
    · exact herr _ _ _ _ _ (hx.of_error h)
    · exact hok _ _ _ _ (hx.of_ok h)

theorem Admits.suits (hP : P.Admits) : P.onStore.Suits where
  session b session := hP.session b.store session
  defaults b id c := hP.defaults b.store id c
  visiting key _ hx := .visiting (fun _ _ _ _ h => h) (fun _ _ _ _ _ h => h) key hx

theorem Suits.press (hQ : Q.Suits) {x : Press α} (hx : x.Orderly) : Q.Keeps (Build.press x) := by
  refine ⟨fun b => ?_⟩
  rw [Build.effect_press]
  rcases h : effect x b.store.session with ⟨_ | a, session⟩
  · exact Q.trans_err (hQ.session b session) (Q.fail (hx.blameless h) _)
  · exact hQ.session b session

theorem Keeps.ofOutcome {r : Outcome α} (h : Outcome.Fails Error.Blameless r) : Q.Keeps (Build.ofOutcome r) := by
  cases r with
  | error e => exact .throw (h e rfl)
  | ok a => exact .pure a

/-- What follows an outcome has to keep the passage only where the outcome is a success. -/
theorem Keeps.ofOutcome_bind {r : Outcome α} {f : α → Build β} (h : Outcome.Fails Error.Blameless r)
    (hf : ∀ a, r = .ok a → Q.Keeps (f a)) : Q.Keeps (Build.ofOutcome r >>= f) := by
  cases r with
  | error e => exact ⟨Q.fail (h e rfl)⟩
  | ok a => exact hf a rfl

theorem Keeps.within {x : Build α} (context : String) (hx : Q.Keeps x) : Q.Keeps (Build.within context x) :=
  hx.rethrow _

end Passage

namespace Resolver

variable {Q : Passage Building} {r : Resolver} {overlay : Bit → Option PresetSelector → Build Context}
  {run : Table Tree → Table Tree → Build Context}

open Passage

theorem contentsFor_keeps (hdepend : ∀ p, Q.Keeps (r.depend p)) (reference : Option String) :
    Q.Keeps (r.contentsFor reference) := by
  cases reference with
  | none => exact .pure none
  | some reference =>
    refine .bind (.ofOutcome (r.library.locateFrom_fails _ _).blameless) fun p => ?_
    split
    · exact .pure none
    · exact .bind (hdepend p) fun _ => .pure _

theorem constantsOf_keeps (hQ : Q.Suits) (hdepend : ∀ p, Q.Keeps (r.depend p)) (q : QuerySpec) :
    Q.Keeps (r.constantsOf q) :=
  .bind (contentsFor_keeps hdepend q.registry) fun _ => hQ.press (Query.matching_orderly _ _)

theorem variablesOf_keeps (hrun : ∀ q c, Q.Keeps (run q c)) (t : Table Tree) :
    Q.Keeps (variablesOf run t) := by
  unfold variablesOf
  dsimp only
  split
  · exact .pure _
  · exact .bind (hrun _ _) fun _ => .pure _

theorem blocksOf_keeps (hQ : Q.Suits) (hdepend : ∀ p, Q.Keeps (r.depend p))
    (hoverlay : ∀ b s, Q.Keeps (overlay b s)) (hrun : ∀ q c, Q.Keeps (run q c))
    (q : QuerySpec) : Q.Keeps (r.blocksOf overlay run q) := by
  refine .bind (contentsFor_keeps hdepend q.registry) fun contents => ?_
  refine .bind (hQ.press (Query.matching_orderly _ _)) fun found => ?_
  split
  · exact .pure []
  · refine .bind (variablesOf_keeps hrun q.context) fun ofQuery => ?_
    have hrest : ∀ clause : Context × Context, Q.Keeps (found.mapM fun b => do
        let ofPreset ← overlay b q.preset
        return (⟨b, ((Context.merge ofPreset ofQuery).merge clause.1).merge clause.2, q.metadata⟩ : Block)) :=
      fun _ => .mapM (fun b => .bind (hoverlay b q.preset) fun _ => .pure _) found
    cases q.with with
    | none => exact .bind (.pure _) fun clause => hrest clause
    | some w =>
      refine .bind (variablesOf_keeps hrun w.context) fun _ => ?_
      exact .bind (hrun w.queries []) fun _ => .bind (.pure _) fun clause => hrest clause

theorem resultOf_keeps (hQ : Q.Suits) (hdepend : ∀ p, Q.Keeps (r.depend p))
    (hoverlay : ∀ b s, Q.Keeps (overlay b s)) (hrun : ∀ q c, Q.Keeps (run q c))
    (name : String) (t : Tree) : Q.Keeps (r.resultOf overlay run name t) := by
  refine .bind (.ofOutcome (QueryEntry.read_fails name t).blameless) fun entry => .bind (.mapM (fun q => ?_) _) fun groups => .pure _
  split
  · exact .bind (blocksOf_keeps hQ hdepend hoverlay hrun q) fun _ => .pure _
  · exact .bind (constantsOf_keeps hQ hdepend q) fun _ => .pure _

theorem runNested_keeps (hQ : Q.Suits) (hdepend : ∀ p, Q.Keeps (r.depend p))
    (hoverlay : ∀ b s, Q.Keeps (overlay b s)) (depth : Nat) (queries compose : Table Tree) :
    Q.Keeps (r.runNested overlay depth queries compose) := by
  induction depth generalizing queries compose with
  | zero => exact .throw rfl
  | succ depth ih =>
    refine .bind (.foldlM (fun results e => ?_) queries []) fun results => ?_
    · exact .bind (.within _ (resultOf_keeps hQ hdepend hoverlay ih e.1 e.2)) fun _ => .pure _
    · split
      · exact .pure []
      · exact .bind (.ofOutcome (ComposeSpec.readTable_fails compose).blameless) fun _ =>
          hQ.press (Compose.run_orderly _ _)

theorem run_keeps (hQ : Q.Suits) (hdepend : ∀ p, Q.Keeps (r.depend p))
    (hoverlay : ∀ b s, Q.Keeps (overlay b s)) (queries compose : Table Tree) :
    Q.Keeps (r.run overlay queries compose) :=
  runNested_keeps hQ hdepend hoverlay _ queries compose

theorem ofDefaults_keeps (hQ : Q.Suits) (hdepend : ∀ p, Q.Keeps (r.depend p))
    (hoverlay : ∀ b s, Q.Keeps (overlay b s)) (b : Bit) :
    Q.Keeps (r.ofDefaults overlay b) :=
  .bind (run_keeps hQ hdepend hoverlay _ _) fun _ => .pure _

theorem ofPreset_keeps (hQ : Q.Suits) (hdepend : ∀ p, Q.Keeps (r.depend p))
    (hoverlay : ∀ b s, Q.Keeps (overlay b s)) (b : Bit) (p : PresetDecl) :
    Q.Keeps (r.ofPreset overlay b p) :=
  .bind (.ofOutcome (p.tree_fails b).blameless) fun _ => .bind (variablesOf_keeps (run_keeps hQ hdepend hoverlay) _) fun _ =>
    .bind (run_keeps hQ hdepend hoverlay _ _) fun _ => .pure _

theorem resolve_keeps (hQ : Q.Suits) (hdepend : ∀ p, Q.Keeps (r.depend p))
    (hoverlay : ∀ b s, Q.Keeps (overlay b s)) (b : Bit) (choice : PresetChoice) :
    Q.Keeps (r.resolve overlay b choice) := by
  cases choice with
  | defaults =>
    refine .bind .get fun s => ?_
    split
    · exact .pure _
    · refine .bind (.within _ (hQ.visiting _ (ofDefaults_keeps hQ hdepend hoverlay b))) fun context => ?_
      exact .bind (.modify fun b => hQ.defaults b _ _) fun _ => .pure _
  | declared place p => exact .within _ (hQ.visiting _ (ofPreset_keeps hQ hdepend hoverlay b p))

theorem overlayBy_keeps (hQ : Q.Suits) {resolve : Bit → PresetChoice → Build Context}
    (hresolve : ∀ b choice, Q.Keeps (resolve b choice)) (b : Bit) (s : Option PresetSelector) :
    Q.Keeps (overlayBy resolve b s) :=
  .bind (hQ.press (Preset.chosen_orderly b s)) fun choice => hresolve b choice

theorem ofChoice_keeps (hQ : Q.Suits) (hdepend : ∀ p, Q.Keeps (r.depend p)) (room : Nat) (b : Bit)
    (choice : PresetChoice) : Q.Keeps (r.ofChoice room b choice) := by
  induction room generalizing b choice with
  | zero => exact .throw rfl
  | succ room ih => exact resolve_keeps hQ hdepend (overlayBy_keeps hQ ih) b choice

theorem overlay_keeps (hQ : Q.Suits) (hdepend : ∀ p, Q.Keeps (r.depend p)) (b : Bit)
    (s : Option PresetSelector) : Q.Keeps (r.overlay b s) :=
  overlayBy_keeps hQ (ofChoice_keeps hQ hdepend _) b s

end Resolver

end Bitpress
