import Bitpress.Proofs.Preset.Walk

/-!
What resolving comes to.

Every step of a resolver with the presets of a walk on its trail leaves that walk
on the trail, or it fails with an error of its setting, or the error shows
presets that select each other. No step runs out of room: queries are nested less
deep the further inside they stand, and a walk is no longer than there are
presets (`ofChoice_comes`).
-/

namespace Bitpress

open Outcome

variable {S : Setting} {r : Resolver} {on : Table Tree → Prop} {g : Ground} {s : Building} {t : Table Tree}
  {w : List Pick} {k : Pick}

namespace Setting

variable {α : Type}

/-- The setting takes a step on the session. -/
theorem press_comes (hS : S.Bears r on) (hs : S.inv s.ground) {x : Press α} (hx : x.Orderly) (hadvances : x.Advances) :
    Comes S.course (Build.press x) s fun a _ => ∃ σ, (effect x σ).1 = .ok a := by
  obtain ⟨hinv, hle⟩ := hS.session s.ground _ hs (hadvances s.store.session).le
  exact .of_effect (Build.effect_press x s) (fun a ha => ⟨hinv, ⟨hle, rfl⟩, _, ha⟩)
    fun e he => hS.plain e ((hx.comes s.store.session).error e _ (Prod.ext he rfl))

theorem ofOutcome_comes (hS : S.Bears r on) (hs : S.inv s.ground) {x : Outcome α} (hx : Fails Error.Plain x) :
    Comes S.course (Build.ofOutcome x) s fun a _ => x = .ok a :=
  .of_effect (Build.effect_ofOutcome x s) (fun _ ha => ⟨hs, S.course.refl s, ha⟩) fun e he => hS.plain e (hx e he)

namespace Carries

variable {C : Course Building} (hC : S.Carries r on C) (hS : S.Bears r on)

include hC hS

theorem press (hs : C.inv s) {x : Press α} (hx : x.Orderly) (hadvances : x.Advances) :
    Comes C (Build.press x) s fun a _ => ∃ σ, (effect x σ).1 = .ok a := by
  refine hC.still hs (press_comes hS (hC.inv hs) hx hadvances) fun a t h id => ?_
  rw [Build.effect_press] at h
  obtain rfl := (Prod.ext_iff.mp h).2
  rfl

theorem ofOutcome (hs : C.inv s) {x : Outcome α} (hx : Fails Error.Plain x) :
    Comes C (Build.ofOutcome x) s fun a _ => x = .ok a := by
  refine hC.still hs (ofOutcome_comes hS (hC.inv hs) hx) fun a t h id => ?_
  rw [Build.effect_ofOutcome] at h
  obtain rfl := (Prod.ext_iff.mp h).2
  rfl

end Carries

end Setting

namespace Resolver

variable {overlay overlay' : Bit → Option PresetSelector → Build Context}
  {run run' : Table Tree → Table Tree → Build Context}

open Setting

/-! ### Queries

Two resolvers are run side by side that differ in what they lay over the bits; the second one is there for itself if
both are the same. -/

section Queries
variable {C : Course Building} (hC : S.Carries r on C) (hS : S.Bears r on)

include hC hS

theorem contentsFor_comes (ht : on t) {name : String} {q : QuerySpec} (hq : QuerySpec.Stands t name q)
    (hs : C.inv s) :
    Comes C (r.contentsFor q.registry) s fun contents u =>
      S.Sought r u.ground q ((contents.map Contents.bits).getD r.bits) := by
  unfold contentsFor Sought
  cases hreference : q.registry with
  | none => exact .pure hs rfl
  | some reference =>
    refine (hC.ofOutcome hS hs (r.library.locateFrom_fails _ _)).bind fun p u hu _ hp => ?_
    split
    · rename_i hpath
      exact .pure hu ⟨p, hp, by rw [if_pos hpath]; rfl⟩
    · rename_i hpath
      refine (hC.depend hu ht hq hreference hp hpath).bind fun contents v hv _ hbits => ?_
      exact .pure hv ⟨p, hp, by rw [if_neg hpath]; exact hbits⟩

theorem constantsOf_comes (ht : on t) {name : String} {q : QuerySpec} (hq : QuerySpec.Stands t name q)
    (hs : C.inv s) : Comes.Safe C (r.constantsOf q) s :=
  (contentsFor_comes hC hS ht hq hs).bind fun _ _ hu _ _ =>
    (hC.press hS hu (Query.matching_orderly _ q) (Query.matching_steady _ q).advances).safe

omit hC hS in
theorem variablesOf_tracks (hs : C.inv s) {context : Table Tree}
    (hrun : ∀ u, C.inv u → Legacy.queriesOf context ≠ [] →
      Tracks.Safe C (run (Legacy.queriesOf context) []) (run' (Legacy.queriesOf context) []) u) :
    Tracks.Safe C (variablesOf run context) (variablesOf run' context) s := by
  unfold variablesOf
  dsimp only
  split
  · exact .safe_pure hs
  · rename_i hsome
    have hne : Legacy.queriesOf context ≠ [] := fun hnil => hsome (by
      show (Legacy.queriesOf context).isEmpty = true
      rw [hnil]
      rfl)
    exact (hrun s hs hne).bind fun _ _ hu _ _ => .safe_pure hu

omit hC hS in
theorem variablesOf_comes (hs : C.inv s) {context : Table Tree}
    (hrun : ∀ u, C.inv u → Legacy.queriesOf context ≠ [] → Comes.Safe C (run (Legacy.queriesOf context) []) u) :
    Comes.Safe C (variablesOf run context) s :=
  (variablesOf_tracks hs fun u hu hne => .refl (hrun u hu hne)).comes

/-- The bits that a query finds are bound to variables, if presets that it picks can be resolved and
the queries inside it run. -/
theorem blocksOf_tracks (ht : on t) {name : String} {q : QuerySpec} (hq : QuerySpec.Stands t name q)
    (hkind : QueryKind.forQuery name q.kind = .bits) (hs : C.inv s)
    (hoverlay : ∀ b u, C.inv u →
      (∀ choice, PresetChoice.choose b q.preset = .ok choice → S.Finds r u.ground t (b, choice)) →
      Tracks.Safe C (overlay b q.preset) (overlay' b q.preset) u)
    (hrun : ∀ u inner, C.inv u → inner ∈ q.inner → inner ≠ [] ∨ q.with.isSome →
      Tracks.Safe C (run inner []) (run' inner []) u) :
    Tracks.Safe C (r.blocksOf overlay run q) (r.blocksOf overlay' run' q) s := by
  refine (Tracks.refl (contentsFor_comes hC hS ht hq hs)).bind fun contents u hu _ hsought => ?_
  refine (Tracks.refl (hC.press hS hu (Query.matching_orderly _ q) (Query.matching_steady _ q).advances)).bind
    fun found v hv hle hfound => ?_
  have hbits : ∀ u' : Building, S.le v.ground u'.ground → ∀ b ∈ found, ∀ choice,
      PresetChoice.choose b q.preset = .ok choice → S.Finds r u'.ground t (b, choice) := by
    intro u' hle' b hb choice hchoice
    obtain ⟨σ, hσ⟩ := hfound
    exact ⟨name, q, _, hq, hkind, hsought.move hS (S.trans (hC.le hle) hle'), ⟨σ, found, hσ, hb⟩, hchoice⟩
  split
  · exact .safe_pure hv
  · refine (variablesOf_tracks hv fun u hu hne => hrun u _ hu (List.mem_cons_self ..) (.inl hne)).bind
      fun ofQuery v₁ hv₁ hle₁ _ => ?_
    have hrest : ∀ (clause : Context × Context) u', C.inv u' → S.le v₁.ground u'.ground →
        Tracks.Safe C (found.mapM fun b => do
          let ofPreset ← overlay b q.preset
          return (⟨b, ((Context.merge ofPreset ofQuery).merge clause.1).merge clause.2, q.metadata⟩ : Block))
          (found.mapM fun b => do
            let ofPreset ← overlay' b q.preset
            return (⟨b, ((Context.merge ofPreset ofQuery).merge clause.1).merge clause.2, q.metadata⟩ : Block)) u' := by
      intro clause u' hu' hle'
      refine .safe_mapM hu' fun b z hb hz hle'' => ?_
      refine (hoverlay b z hz (hbits z ?_ b hb)).bind fun _ _ hz' _ _ => .safe_pure hz'
      exact S.trans (hC.le hle₁) (S.trans hle' (hC.le hle''))
    cases hwith : q.with with
    | none => exact (Tracks.safe_pure hv₁).bind fun clause u' hu' hle' _ => hrest clause u' hu' (hC.le hle')
    | some clause =>
      have hinner : q.inner = [Legacy.queriesOf q.context, Legacy.queriesOf clause.context, clause.queries] := by
        rw [QuerySpec.inner, hwith]
      have hsome : q.with.isSome := by rw [hwith]; rfl
      refine (variablesOf_tracks hv₁ fun u hu _ => hrun u _ hu ?_ (.inr hsome)).bind fun _ v₂ hv₂ hle₂ _ => ?_
      · rw [hinner]
        simp
      refine (hrun v₂ clause.queries hv₂ ?_ (.inr hsome)).bind fun _ v₃ hv₃ hle₃ _ => ?_
      · rw [hinner]
        simp
      exact (Tracks.safe_pure hv₃).bind fun clause u' hu' hle' _ =>
        hrest clause u' hu' (S.trans (hC.le hle₂) (S.trans (hC.le hle₃) (hC.le hle')))

theorem resultOf_tracks (ht : on t) {name : String} {tree : Tree} (hentry : (name, tree) ∈ t)
    (hs : C.inv s)
    (hoverlay : ∀ q b u, C.inv u → QuerySpec.Stands t name q →
      (∀ choice, PresetChoice.choose b q.preset = .ok choice → S.Finds r u.ground t (b, choice)) →
      Tracks.Safe C (overlay b q.preset) (overlay' b q.preset) u)
    (hrun : ∀ q u inner, C.inv u → QuerySpec.Stands t name q → inner ∈ q.inner →
      inner ≠ [] ∨ q.with.isSome → Tracks.Safe C (run inner []) (run' inner []) u) :
    Tracks.Safe C (r.resultOf overlay run name tree) (r.resultOf overlay' run' name tree) s := by
  refine (Tracks.refl (hC.ofOutcome hS hs (QueryEntry.read_fails name tree))).bind fun entry u hu _ hread => ?_
  refine (Tracks.safe_mapM hu fun q z hq hz _ => ?_).bind fun _ _ hv _ _ => .safe_pure hv
  have hstands : QuerySpec.Stands t name q := ⟨tree, entry, hentry, hread, hq⟩
  split
  · rename_i hkind
    exact (blocksOf_tracks hC hS ht hstands hkind hz (fun b u hu => hoverlay q b u hu hstands)
      fun u inner hu => hrun q u inner hu hstands).bind fun _ _ hv _ _ => .safe_pure hv
  · exact (Tracks.refl (constantsOf_comes hC hS ht hstands hz)).bind fun _ _ hv _ _ => .safe_pure hv

/-- Nested queries run to an end when there is room for how deep they are nested. -/
theorem runNested_tracks {depth : Nat} (hdepth : 0 < depth) {queries : Table Tree} (hbelow : queries.Below depth)
    (compose : Table Tree) (hon : on queries) (hs : C.inv s)
    (hoverlay : ∀ t name q b u, Relation.ReflTransGen Inside queries t → C.inv u →
      QuerySpec.Stands t name q → on t →
      (∀ choice, PresetChoice.choose b q.preset = .ok choice → S.Finds r u.ground t (b, choice)) →
      Tracks.Safe C (overlay b q.preset) (overlay' b q.preset) u) :
    Tracks.Safe C (r.runNested overlay depth queries compose) (r.runNested overlay' depth queries compose) s := by
  induction depth generalizing queries compose s with
  | zero => omega
  | succ depth ih =>
    refine (Tracks.safe_foldlM hs fun results e u he hu _ => ?_).bind fun results u hu _ _ => ?_
    · refine (Tracks.safe_rethrow (resultOf_tracks hC hS hon he hu ?_ ?_) (hC.within _)).bind
        fun _ _ hv _ _ => .safe_pure hv
      · exact fun q b v hv hq => hoverlay queries e.1 q b v .refl hv hq hon
      · intro q v inner hv hq hinner hsome
        have hinside : Inside queries inner := ⟨e.1, q, hq, hinner⟩
        have hlower := hq.below hbelow
        have hpos : 0 < depth := by
          rcases hsome with hne | hwith
          · exact (hlower.inner hinner).pos hne
          · obtain ⟨clause, hclause⟩ := Option.isSome_iff_exists.mp hwith
            exact (hlower.with clause hclause).1
        exact ih hpos (hlower.inner hinner) [] (hS.inside _ _ hon hinside) hv
          fun t name q b z hreach => hoverlay t name q b z (.head hinside hreach)
    · split
      · exact .safe_pure hu
      · refine (Tracks.refl (hC.ofOutcome hS hu (ComposeSpec.readTable_fails compose))).bind fun specs v hv _ _ => ?_
        exact .safe (.refl (hC.press hS hv (Compose.run_orderly results specs) (Compose.run_steady results specs).advances))

theorem run_tracks (queries compose : Table Tree) (hon : on queries) (hs : C.inv s)
    (hoverlay : ∀ t name q b u, Relation.ReflTransGen Inside queries t → C.inv u →
      QuerySpec.Stands t name q → on t →
      (∀ choice, PresetChoice.choose b q.preset = .ok choice → S.Finds r u.ground t (b, choice)) →
      Tracks.Safe C (overlay b q.preset) (overlay' b q.preset) u) :
    Tracks.Safe C (r.run overlay queries compose) (r.run overlay' queries compose) s :=
  runNested_tracks hC hS (Nat.succ_pos _) ((Tree.below_depth queries).mono (Nat.le_succ _)) compose hon hs hoverlay

/-- The queries of a preset run if each of its maps can be run. -/
theorem ofChoice_tables (k : Pick) (hs : C.inv s)
    (hrun : ∀ t ∈ k.tables, ∀ compose u, C.inv u → Tracks.Safe C (r.run overlay t compose) (r.run overlay' t compose) u) :
    (k.2 = .defaults → Tracks.Safe C (r.ofDefaults overlay k.1) (r.ofDefaults overlay' k.1) s) ∧
    ∀ place p, k.2 = .declared place p → Tracks.Safe C (r.ofPreset overlay k.1 p) (r.ofPreset overlay' k.1 p) s := by
  obtain ⟨b, choice⟩ := k
  refine ⟨?_, ?_⟩
  · rintro rfl
    exact (hrun _ (List.mem_singleton_self _) _ s hs).bind fun _ _ hv _ _ => .safe_pure hv
  · rintro place p rfl
    refine (Tracks.refl (hC.ofOutcome hS hs (p.tree_fails b))).bind fun tree v hv _ htree => ?_
    have htables : Pick.tables (b, .declared place p) =
        [Legacy.queriesOf (partOf tree "context"), partOf tree "queries"] := by
      unfold Pick.tables
      dsimp only
      rw [htree]
    refine (variablesOf_tracks hv fun u hu _ => hrun _ ?_ [] u hu).bind fun _ z hz _ _ => ?_
    · rw [htables]
      exact List.mem_cons_self ..
    · refine (hrun _ ?_ _ z hz).bind fun _ _ hv _ _ => .safe_pure hv
      rw [htables]
      exact List.mem_cons_of_mem _ (List.mem_singleton_self _)

/-- The preset that a query picks of a bit it finds can be resolved, if all that its table selects can. -/
theorem overlayBy_tracks {resolve resolve' : Bit → PresetChoice → Build Context} {b : Bit}
    {selector : Option PresetSelector} (hs : C.inv s)
    (hfinds : ∀ choice, PresetChoice.choose b selector = .ok choice → S.Finds r s.ground t (b, choice))
    (hresolve : ∀ k u, C.inv u → S.Finds r u.ground t k →
      Tracks.Safe C (resolve k.1 k.2) (resolve' k.1 k.2) u) :
    Tracks.Safe C (overlayBy resolve b selector) (overlayBy resolve' b selector) s := by
  refine (Tracks.refl (hC.press hS hs (Preset.chosen_orderly b selector)
    (Preset.chosen_steady b selector).advances)).bind fun choice u hu hle hchosen => ?_
  obtain ⟨σ, hσ⟩ := hchosen
  have hchoice := ((Preset.chosen_comes b selector σ).ok choice _ (Prod.ext hσ rfl)).2.2
  exact hresolve (b, choice) u hu ((hfinds choice hchoice).move hS (hC.le hle))

end Queries

/-! ### Presets -/

variable (hS : S.Bears r on)

include hS

theorem within_comes {x : Build α} {post : α → Building → Prop} (context : String)
    (hx : Comes (S.walking r w) x s post) : Comes (S.walking r w) (Build.within context x) s post :=
  hx.rethrow ((walking_carries hS w).within context)

/-- A selected preset is resolved with the walk to it on the trail. -/
theorem visiting_comes (hs : (S.walking r w).inv s) (hk : k.pair ∈ S.pairs s.ground)
    (hlast : ∀ k' ∈ w.getLast?, S.Selects r s.ground k' k) {x : Build α}
    (hx : ∀ u, (S.walking r (w ++ [k])).inv u → Comes.Safe (S.walking r (w ++ [k])) x u) :
    Comes.Safe (S.walking r w) (visiting k.key x) s := by
  obtain ⟨hinv, htrail, hw⟩ := hs
  rcases hw.enter hk hlast with ⟨henter, hwalk⟩ | ⟨e, henter, hshows⟩
  · have hcomes := hx { s with trail := (w ++ [k]).map Pick.key } ⟨hinv, rfl, hwalk⟩
    refine .of_effect (r := (effect x { s with trail := (w ++ [k]).map Pick.key }).1)
      (by rw [effect_visiting, htrail, henter]) (fun a ha => ?_) fun e he => ?_
    · obtain ⟨⟨hinv', htrail', _⟩, hle, -⟩ := hcomes.ok a _ (Prod.ext ha rfl)
      have hback : ((w ++ [k]).map Pick.key).dropLast = w.map Pick.key := by
        rw [List.map_append, List.map_singleton, List.dropLast_concat]
      have hdrop := (congrArg List.dropLast htrail').trans hback
      exact ⟨⟨hinv', hdrop, hw.move hS hle.1⟩, ⟨hle.1, hdrop.trans htrail.symm⟩, trivial⟩
    · exact hcomes.error e _ (Prod.ext he rfl)
  · exact .of_effect (by rw [effect_visiting, htrail, henter]) (fun a ha => by cases ha) fun e' he => by
      cases he
      exact .inr ⟨s.ground, hinv, hshows⟩

/-- A selected preset can be resolved if its queries run with the walk to it on the trail. -/
theorem resolve_comes (hs : (S.walking r w).inv s) (hk : k.pair ∈ S.pairs s.ground)
    (hlast : ∀ k' ∈ w.getLast?, S.Selects r s.ground k' k)
    (hrun : ∀ t ∈ k.tables, ∀ compose u, (S.walking r (w ++ [k])).inv u →
      Comes.Safe (S.walking r (w ++ [k])) (r.run overlay t compose) u) :
    Comes.Safe (S.walking r w) (r.resolve overlay k.1 k.2) s := by
  have htables : ∀ u, (S.walking r (w ++ [k])).inv u → _ := fun u hu =>
    ofChoice_tables (walking_carries hS (w ++ [k])) hS k hu fun t ht compose u hu => .refl (hrun t ht compose u hu)
  obtain ⟨b, choice⟩ := k
  cases choice with
  | defaults =>
    refine .get_bind ?_
    split
    · exact .safe_pure hs
    · refine (within_comes hS _ (visiting_comes hS hs hk hlast fun u hu => ((htables u hu).1 rfl).comes)).bind
        fun context u hu hle _ => ?_
      have hknown := hS.pairs_mono hle.1 hk
      have hput : Comes.Safe S.course (modifyThe Building fun s =>
          { s with store := s.store.putDefaults b.info.id context }) u :=
        .modify (hS.defaults u.ground _ _ hu.1 hknown).1 ⟨(hS.defaults u.ground _ _ hu.1 hknown).2, rfl⟩ trivial
      exact (walking_of_course hS hu hput).bind fun _ _ hv _ _ => .safe_pure hv
  | declared place p =>
    exact within_comes hS _ (visiting_comes hS hs hk hlast fun u hu => ((htables u hu).2 place p rfl).comes)

/-- Presets can be resolved, wherever the walk to them came from: the room for the trail is not used up
before every preset is on it. -/
theorem ofChoice_comes {room : Nat} (hroom : r.presets < room + w.length) (hs : (S.walking r w).inv s)
    (hk : k.pair ∈ S.pairs s.ground) (hlast : ∀ k' ∈ w.getLast?, S.Selects r s.ground k' k)
    (hon : ∀ t ∈ k.tables, on t) : Comes.Safe (S.walking r w) (r.ofChoice room k.1 k.2) s := by
  induction room generalizing w s k with
  | zero => exact absurd (hs.2.2.length_le hS hs.1) (by omega)
  | succ room ih =>
    have hC := walking_carries hS (w ++ [k])
    refine resolve_comes hS hs hk hlast fun t ht compose u hu => Tracks.comes ?_
    refine run_tracks hC hS t compose (hon t ht) hu fun inner name q b v hreach hv hq hinner hfinds => ?_
    refine overlayBy_tracks hC hS hv hfinds fun k' z hz hk' => .refl ?_
    refine ih ?_ hz (hk'.pair_mem hS hz.1) ?_ (hS.found z.ground inner k' hz.1 hinner hk')
    · rw [List.length_append, List.length_singleton]
      omega
    · intro last hlast
      rw [List.getLast?_concat] at hlast
      cases Option.mem_some_iff.mp hlast
      exact ⟨t, ht, inner, hreach, hk'⟩

/-- A map of queries can be run when no preset is on the trail. -/
theorem run_comes {room : Nat} (hroom : r.presets < room) (queries compose : Table Tree) (hon : on queries)
    (hs : (S.walking r []).inv s) :
    Comes.Safe (S.walking r []) (r.run (overlayBy (r.ofChoice room)) queries compose) s := by
  have hC := walking_carries hS []
  refine Tracks.comes (run_tracks hC hS queries compose hon hs fun t name q b u _ hu _ ht hfinds => ?_)
  refine overlayBy_tracks hC hS hu hfinds fun k v hv hk => .refl ?_
  exact ofChoice_comes hS (by simpa using hroom) hv (hk.pair_mem hS hv.1) (fun _ h => by cases h)
    (hS.found v.ground t k hv.1 ht hk)

end Resolver

end Bitpress
