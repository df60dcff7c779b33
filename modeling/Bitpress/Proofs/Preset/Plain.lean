import Bitpress.Proofs.Compose.Kept
import Bitpress.Proofs.Memo.Requests
import Bitpress.Proofs.Memo.Settled

/-!
Presets that add nothing.

A preset that adds nothing runs the queries of the bit's defaults once more
(`PresetDecl.Plain`). What they find is in the defaults already, so it makes no
difference to the variables of a block if they find the same again
(`ContextValue.layers_agree`).
-/

namespace Bitpress

/-! ### Plain presets -/

/-- A preset adds nothing. -/
structure PresetDecl.Plain (e : PresetDecl) : Prop where
  context : e.context = []
  queries : e.queries = []
  compose : e.compose = []
  merge : e.merge = {}
  overrides : e.overrides = []

instance (e : PresetDecl) : Decidable e.Plain :=
  decidable_of_iff ((e.context.isEmpty && e.queries.isEmpty && e.compose.isEmpty && e.overrides.isEmpty) = true ∧
      e.merge = {}) <| by
    simp only [Bool.and_eq_true, List.isEmpty_iff]
    exact ⟨fun ⟨⟨⟨⟨hcontext, hqueries⟩, hcompose⟩, hoverrides⟩, hmerge⟩ =>
        ⟨hcontext, hqueries, hcompose, hmerge, hoverrides⟩,
      fun h => ⟨⟨⟨⟨h.context, h.queries⟩, h.compose⟩, h.overrides⟩, h.merge⟩⟩

theorem PresetDecl.Plain.tree {e : PresetDecl} (h : e.Plain) (b : Bit) : e.tree b =
    .ok (.map [("context", .map []), ("queries", .map b.defaults.queries), ("compose", .map b.defaults.compose)]) := by
  unfold PresetDecl.tree laidOver
  rw [h.context, h.queries, h.compose, h.merge, h.overrides]
  rfl

namespace Resolver

variable {r : Resolver} {overlay : Bit → Option PresetSelector → Build Context} {b : Bit} {e : PresetDecl} {s t : Building}
  {v : Context}

/-- A preset that adds nothing comes to what the queries of the defaults find. -/
theorem ofPreset_plain (he : e.Plain) (h : effect (r.ofPreset overlay b e) s = (.ok v, t)) :
    effect (r.run overlay b.defaults.queries b.defaults.compose) s = (.ok v, t) := by
  have hpreset : r.ofPreset overlay b e =
      (do return Context.merge [] (← r.run overlay b.defaults.queries b.defaults.compose)) := by
    unfold ofPreset
    rw [he.tree b]
    rfl
  rw [hpreset] at h
  obtain ⟨found, _, hfound, h⟩ := effect_bind_eq_ok.mp h
  cases h
  have hmerged : Context.merge [] found = found := by
    unfold Context.merge
    rw [ContextValue.overlayEntries_eq, Table.mergeWith_nil_left (run_listed hfound).1]
  rwa [hmerged]

/-- The defaults are what they say, with what their queries find over it. -/
theorem ofDefaults_eq_ok (h : effect (r.ofDefaults overlay b) s = (.ok v, t)) :
    ∃ found, effect (r.run overlay b.defaults.queries b.defaults.compose) s = (.ok found, t) ∧
      v = (Context.ofTable b.defaults.context).merge found := by
  obtain ⟨found, _, hfound, h⟩ := effect_bind_eq_ok.mp h
  cases h
  exact ⟨found, hfound, rfl⟩

/-- A query that names no registry finds bits of the one that it is run in. -/
theorem bit_mem_of_blocksOf {run : Table Tree → Table Tree → Build Context} {q : QuerySpec} (hregistry : q.registry = none)
    (hwith : q.with = none) {blocks : List Block} (h : effect (r.blocksOf overlay run q) s = (.ok blocks, t)) {block : Block}
    (hblock : block ∈ blocks) : block.bit ∈ r.bits.items := by
  unfold blocksOf contentsFor at h
  rw [hregistry, hwith] at h
  obtain ⟨_, s₁, hcontents, h⟩ := effect_bind_eq_ok.mp h
  cases hcontents
  obtain ⟨found, s₂, hfound, h⟩ := effect_bind_eq_ok.mp h
  have hmem := ((Query.matching_comes _ q _).ok found _ (Build.effect_of_press_eq_ok hfound)).2.2
  split at h
  · cases h
    cases hblock
  · obtain ⟨ofQuery, s₃, _, h⟩ := effect_bind_eq_ok.mp h
    obtain ⟨_, s₄, hclause, h⟩ := effect_bind_eq_ok.mp h
    cases hclause
    let anywhere : Rule Building := ⟨fun _ => True, fun _ _ => True, fun _ => trivial, fun _ _ => trivial⟩
    have hone : ∀ b w, b ∈ found → anywhere.inv w → anywhere.le s₃ w → Obeys anywhere (do
        let ofPreset ← overlay b q.preset
        return (⟨b, ((Context.merge ofPreset ofQuery).merge []).merge [], q.metadata⟩ : Block)) w fun block _ =>
          block.bit = b := fun b w _ _ _ => ⟨trivial, trivial, fun block t h => by
      obtain ⟨_, _, _, h⟩ := effect_bind_eq_ok.mp h
      cases h
      rfl⟩
    have hall := (Obeys.mapM (R := anywhere) trivial hone fun _ _ _ _ _ _ _ h => h).ok blocks t h
    obtain ⟨b, hb, hbit⟩ := (Store.exists_of_forall₂ hall).2 block hblock
    exact hbit ▸ hmem b hb

/-- A query without variables of its own binds each bit to what its preset comes to. -/
theorem blocksOf_bind {S : Replay} {r' : Resolver} (hS : S.Serves r r') {run : Table Tree → Table Tree → Build Context}
    {overlay' : Nat → Bit → Option PresetSelector → Build Context} {q : QuerySpec} (hcontext : q.context = [])
    (hwith : q.with = none) (hs : S.inv s.ground)
    (hoverlay : ∀ b t, S.inv t.ground → S.knows t.ground b →
      S.Echoes (overlay b q.preset) t (fun n => overlay' n b q.preset) fun _ _ => True) :
    Obeys S.rule (r.blocksOf overlay run q) s fun blocks t => ∀ block ∈ blocks, S.knows t.ground block.bit ∧
      (S.fair t.ground → Repeats S.sees (fun n => overlay' n block.bit q.preset) block.context) := by
  have hvariables : variablesOf run q.context = pure [] := by
    rw [hcontext]
    rfl
  unfold blocksOf
  rw [hvariables, hwith]
  refine Obeys.bind (contentsFor_echoes hS q.registry hs) fun contents t ht _ ⟨hknown, _⟩ => ?_
  refine Obeys.bind (Replay.Echoes.press hS (Query.matching_steady _ q) ht) fun found u hu hle ⟨⟨σ, hσ⟩, _⟩ => ?_
  have hfound : ∀ b ∈ found, S.knows u.ground b := fun b hb =>
    hS.knows_mono hle.1 (hknown b (((Query.matching_comes _ q σ).ok found _ (Prod.ext hσ rfl)).2.2 b hb))
  split
  · exact .pure hu fun _ h => by cases h
  · have hone : ∀ b w, b ∈ found → S.rule.inv w → S.rule.le u w → Obeys S.rule (do
        let ofPreset ← overlay b q.preset
        return (⟨b, ((Context.merge ofPreset []).merge []).merge [], q.metadata⟩ : Block)) w fun block x =>
          S.knows x.ground block.bit ∧
            (S.fair x.ground → Repeats S.sees (fun n => overlay' n block.bit q.preset) block.context) := by
      intro b w hb hw hle'
      have hbknown := hS.knows_mono hle'.1 (hfound b hb)
      refine Obeys.bind (hoverlay b w hw hbknown) fun c x hx hle'' ⟨_, hc⟩ => .pure hx ⟨hS.knows_mono hle''.1 hbknown, ?_⟩
      exact hc
    have hall : Obeys S.rule (found.mapM fun b => do
        let ofPreset ← overlay b q.preset
        return (⟨b, ((Context.merge ofPreset []).merge []).merge [], q.metadata⟩ : Block)) u fun blocks t =>
          ∀ block ∈ blocks, S.knows t.ground block.bit ∧
            (S.fair t.ground → Repeats S.sees (fun n => overlay' n block.bit q.preset) block.context) := by
      refine (Obeys.mapM hu hone fun _ block x y _ _ hle' h => ?_).imp fun blocks t _ _ h block hblock => ?_
      · exact ⟨hS.knows_mono hle'.1 h.1, fun hy => h.2 (S.fair_of_le hle'.1 hy)⟩
      · obtain ⟨_, _, h⟩ := (Store.exists_of_forall₂ h).2 block hblock
        exact h
    exact hall

end Resolver

/-! ### Blocks of loaded registries -/

namespace Store

/-- A query that names no registry finds bits of the one that it is run in. -/
theorem bit_mem_of_blocksOf {g : Store} {l : Library} {p : Location} {overlay : Bit → Option PresetSelector → Build Context}
    {run : Table Tree → Table Tree → Build Context} {q : QuerySpec} {s t : Building} {blocks : List Block} {block : Block}
    (hregistry : q.registry = none) (hwith : q.with = none)
    (h : effect ((g.resolver l p).blocksOf overlay run q) s = (.ok blocks, t)) (hblock : block ∈ blocks) :
    block.bit ∈ g.items .bits p :=
  Resolver.bit_mem_of_blocksOf hregistry hwith h hblock

/-- A block of a bit is bound by a query that selects a preset of it and gives no variables of its own. The query is
run in a registry when all is loaded, and makes no unseeded choice. -/
def Binds (t : Store) (l : Library) (p : Location) (b : Bit) (choice : PresetChoice) (block : Block) : Prop :=
  ∃ run q blocks u, q.context = [] ∧ q.with = none ∧ PresetChoice.choose b q.preset = .ok choice ∧
    effect ((t.resolver l p).blocksOf (t.resolver l p).overlay run q) { store := t } = (.ok blocks, u) ∧
    u.store.session.choices = t.session.choices ∧ block ∈ blocks ∧ block.bit = b

/-- The defaults of a bit, resolved once more in a registry when all is loaded, come to this without an unseeded
choice. -/
def WorksOut (t : Store) (l : Library) (p : Location) (b : Bit) (v : Context) : Prop :=
  ∃ u, effect ((t.resolver l p).ofDefaults (t.resolver l p).overlay b) { store := t } = (.ok v, u) ∧
    u.store.session.choices = t.session.choices

end Store

namespace Load.Reading

open Store Loaded

variable {l : Library} {count : Nat} {t : Store} {p : Location} {b : Bit} {choice : PresetChoice} {block : Block}
  {v : Context}

theorem start (t : Store) (p : Location) : (replay t p t.Visits).inv (Building.ground { store := t }) :=
  ⟨Nat.le_refl t.session.choices, rfl⟩

theorem overlay_echoes (h : Reading l count t p) (b : Bit) (selector : Option PresetSelector) {s : Building}
    (hs : (replay t p t.Visits).inv s.ground) (hb : Known (t.own .bits p) t b) :
    (replay t p t.Visits).Echoes ((t.resolver l p).overlay b selector) s
      (fun n => Resolver.overlayBy (afresh l t p n) b selector) fun _ _ => True :=
  Resolver.overlayBy_echoes (h.serves (within_visits t)) b selector hs fun choice _ _ hu _ _ => h.ofChoice_echoes _ choice hu hb

/-- A block has the variables that its preset comes to afresh. -/
theorem afresh_of_binds (h : Reading l count t p) (hbinds : t.Binds l p b choice block) :
    ∃ u, t.Visits u ∧ ∃ least, ∀ n, least ≤ n → ∃ w, effect (afresh l t p n b choice) u = (.ok block.context, w) := by
  obtain ⟨run, q, blocks, u, hcontext, hwith, hchoice, hrun, hchoices, hmem, rfl⟩ := hbinds
  have hblocks : Obeys _ ((t.resolver l p).blocksOf (t.resolver l p).overlay run q) { store := t } _ :=
    Resolver.blocksOf_bind (h.serves (within_visits t)) hcontext hwith (start t p) fun b s hs hb => h.overlay_echoes b q.preset hs hb
  obtain ⟨-, hrepeats⟩ := hblocks.ok blocks u hrun block hmem
  obtain ⟨least, hrepeats⟩ := hrepeats (Nat.le_of_eq hchoices)
  -- All members of the family begin with the same choice, and leave the same session.
  have hstart : t.Visits { store := t } := ⟨t.session, rfl⟩
  obtain ⟨_, hfirst, -⟩ := hrepeats least (Nat.le_refl _) _ hstart
  obtain ⟨choice', u', hchosen, -⟩ := effect_bind_eq_ok.mp hfirst
  have hsame : choice' = choice := by
    have hchosen := Build.effect_of_press_eq_ok hchosen
    have hchoice' := ((Preset.chosen_comes block.bit q.preset t.session).ok choice' _ hchosen).2.2
    cases hchoice.symm.trans hchoice'
    rfl
  subst hsame
  have hvisits : t.Visits u' := by
    rw [Build.effect_press] at hchosen
    exact ⟨_, (congrArg Prod.snd hchosen).symm⟩
  refine ⟨u', hvisits, least, fun n hn => ?_⟩
  obtain ⟨w, hn, -⟩ := hrepeats n hn _ hstart
  obtain ⟨choice', u'', hchosen', hn⟩ := effect_bind_eq_ok.mp hn
  cases hchosen.symm.trans hchosen'
  exact ⟨w, hn⟩

/-- The defaults of a bit that the registry declares, or that are worked out here as they are, are repeated by what
its defaults say. -/
theorem repeats_ofDefaults (h : Reading l count t p) (hv : t.defaults? b.info.id = some v)
    (hhere : b ∈ t.own .bits p ∨ t.WorksOut l p b v) :
    Repeats t.Visits (fun n => (t.resolver l p).ofDefaults (Resolver.overlayBy (afresh l t p n)) b) v := by
  rcases hhere with hown | ⟨u, heffect, hchoices⟩
  · obtain ⟨least, hrepeats⟩ := h.repeats_defaults (.inl hown) hv
    refine ⟨least, fun n hn u hu => ?_⟩
    obtain ⟨w, heffect, hw⟩ := hrepeats (n + 1) (Nat.le_succ_of_le hn) u hu
    have hnext := Resolver.ofChoiceAfresh_own hown (t.resolver l p) n
    exact ⟨w, (congrArg (effect · u) hnext).symm.trans heffect, hw⟩
  · have hechoes := Resolver.ofDefaults_echoes (h.serves (within_visits t)) (fun b selector s hs (_ : s.trail = []) hb =>
      h.overlay_echoes b selector hs hb) b (start t p) rfl
    exact (hechoes.ok v u heffect).2 (Nat.le_of_eq hchoices)

/-- A block with a preset that adds nothing is rendered in the same variables as a block with the defaults. -/
theorem layers (h : Reading l count t p) (hb : b ∈ t.items .bits p)
    (hhere : b ∈ t.own .bits p ∨ ∃ v, t.defaults? b.info.id = some v ∧ t.WorksOut l p b v) {place : Nat} {e : PresetDecl}
    (he : e.Plain) {block' : Block} (hblock : t.Binds l p b (.declared place e) block)
    (hblock' : t.Binds l p b .defaults block') (hkeyed : (ContextValue.map (Context.ofTable b.defaults.context)).Keyed)
    {overrides : Context} (hoverrides : (ContextValue.map overrides).Keyed) :
    block.layered (t.renderer.defaults b.info.id) overrides = block'.layered (t.renderer.defaults b.info.id) overrides := by
  obtain ⟨v, hv⟩ := h.exists_defaults (h.known h.current hb)
  have hdefaults : t.renderer.defaults b.info.id = v := congrArg (Option.getD · []) hv
  have hhere : b ∈ t.own .bits p ∨ t.WorksOut l p b v := hhere.imp_right fun ⟨w, hw, hworks⟩ => by
    cases hv.symm.trans hw
    exact hworks
  -- The defaults themselves.
  have hall : block'.context = v := by
    obtain ⟨u, hu, least, hblock'⟩ := h.afresh_of_binds hblock'
    obtain ⟨least', hrepeats⟩ := h.repeats_defaults (h.known h.current hb) hv
    obtain ⟨_, hblock'⟩ := hblock' _ (Nat.le_max_left least least')
    obtain ⟨_, hrepeats, -⟩ := hrepeats _ (Nat.le_max_right least least') u hu
    cases hblock'.symm.trans hrepeats
    rfl
  -- What the preset finds is what they have found.
  obtain ⟨hlisted, hparts⟩ : block.context.Listed ∧ v = (Context.ofTable b.defaults.context).merge block.context := by
    obtain ⟨u, hu, least, hblock⟩ := h.afresh_of_binds hblock
    obtain ⟨least', hrepeats⟩ := h.repeats_ofDefaults hv hhere
    obtain ⟨_, hblock⟩ := hblock (max least least' + 1) (Nat.le_succ_of_le (Nat.le_max_left ..))
    obtain ⟨_, hrepeats, -⟩ := hrepeats _ (Nat.le_max_right least least') u hu
    have hfound := Resolver.ofPreset_plain he hblock
    obtain ⟨found, hfound', hparts⟩ := Resolver.ofDefaults_eq_ok hrepeats
    cases hfound.symm.trans hfound'
    exact ⟨Resolver.run_listed hfound, hparts⟩
  have hagree := ContextValue.layers_agree hkeyed hlisted.keyed hoverrides
  simp only [← Block.merge_eq] at hagree
  unfold Block.layered
  rw [hdefaults, hall, hparts]
  exact ContextValue.map.inj hagree

end Load.Reading

/-- After a request without an unseeded choice, take a bit that a registry shows, which the request has loaded, and a
preset of the bit that adds nothing. A block with this preset is rendered in the same variables as a block with the
defaults, if the registry declares the bit, or if the queries of the defaults find here what they have found where
the bit is declared. -/
theorem Store.Served.plain_preset_layers {s : Store} (hs : s.Served) (c : Call)
    (hchoices : (c.after s).session.choices = s.session.choices) {p : Location}
    (hloaded : ((c.after s).registry p).status = .loaded) (hnow : s.generation < ((c.after s).registry p).generation)
    {b : Bit} (hb : b ∈ (c.after s).items .bits p)
    (hhere : b ∈ (c.after s).own .bits p ∨
      ∃ v, (c.after s).defaults? b.info.id = some v ∧ (c.after s).WorksOut c.library p b v)
    {place : Nat} {e : PresetDecl} (he : e.Plain) {block block' : Block}
    (hblock : (c.after s).Binds c.library p b (.declared place e) block)
    (hblock' : (c.after s).Binds c.library p b .defaults block')
    (hkeyed : (ContextValue.map (Context.ofTable b.defaults.context)).Keyed) {overrides : Context}
    (hoverrides : (ContextValue.map overrides).Keyed) :
    block.layered ((c.after s).renderer.defaults b.info.id) overrides =
      block'.layered ((c.after s).renderer.defaults b.info.id) overrides :=
  (hs.reading hchoices hloaded hnow).layers hb hhere he hblock hblock' hkeyed hoverrides

namespace Store.Shelf

/-- Two registries declare a whole with its parts, which it has a plain preset for, and a part. -/
def lending : Library :=
  library
    ("imports: [{registry: b.yml}]\nbits:\n" ++
      "- {name: x, tags: [all], src: X, defaults: {queries: {has: {where: {tags: [one]}}}}, presets: [{name: as}]}\n" ++
      "- {name: w, tags: [one], src: W}\n")
    ("bits:\n" ++
      "- {name: y, tags: [all], src: Y, defaults: {queries: {has: {where: {tags: [one]}}}}, presets: [{name: as}]}\n" ++
      "- {name: z, tags: [one], src: Z}\n")

/-- The store after a request for the registry that imports the other one. -/
def lent : Store := (Call.get lending a).after {}

/-- Both wholes, with a preset. -/
def wholes (preset : Option PresetSelector) : QuerySpec := { «where» := some { tags := ["all"] }, preset }

def found (preset : Option PresetSelector) : Outcome (List Block) × Building :=
  effect ((lent.resolver lending a).blocksOf (lent.resolver lending a).overlay (fun _ _ => pure []) (wholes preset))
    { store := lent }

/-- How many parts there are among variables. -/
def parts (c : Context) : Option Nat :=
  match c.valueAt? "has" with
  | some (.list items) => some items.length
  | _ => none

/-- How many parts a block is rendered with. -/
def rendered (block : Block) : Option Nat := parts (block.layered (lent.renderer.defaults block.bit.info.id) [])

/-- What the query finds: the names of the bits, how many parts they are rendered with, and the unseeded choices up to
then. -/
def outline (preset : Option PresetSelector) : Option (List (Option String × Option Nat)) × Nat :=
  ((found preset).1.toOption.map (List.map fun block => (block.bit.info.name, rendered block)),
    (found preset).2.store.session.choices)

/-- A bit by its name, with whether it has no static defaults, and whether its preset adds nothing. -/
def traits (b : Bit) : Option String × Bool × Bool :=
  (b.info.name, b.defaults.context.isEmpty,
    match PresetChoice.choose b (some (.name "as")) with
    | .ok (.declared _ e) => decide e.Plain
    | _ => false)

theorem lent_facts :
    (lent.session.choices = 0 ∧ (lent.registry a).status = .loaded ∧ 0 < (lent.registry a).generation) ∧
    ((lent.items .bits a).map traits =
      [(some "x", true, true), (some "w", true, false), (some "y", true, true), (some "z", true, false)] ∧
      (lent.own .bits a).map (fun b => b.info.name) = [some "x", some "w"]) ∧
    [outline none, outline (some (.name "as"))] =
      [(some [(some "x", some 2), (some "y", some 1)], 0), (some [(some "x", some 2), (some "y", some 2)], 0)] := by
  decide +kernel

/-- Bits of the registry with the same name are one bit. -/
theorem lent_unique {b b' : Bit} (hb : b ∈ lent.items .bits a) (hb' : b' ∈ lent.items .bits a)
    (hname : b.info.name = b'.info.name) : b = b' := by
  have hnames := congrArg (List.map Prod.fst) lent_facts.2.1.1
  rw [List.map_map] at hnames
  have hdistinct : ((lent.items .bits a).map (Prod.fst ∘ traits)).Nodup := hnames ▸ by decide
  exact List.inj_on_of_nodup_map hdistinct hb hb' hname

/-- A block that the query finds is bound to the preset that it picks. -/
theorem exists_binds {preset : Option PresetSelector} {list : List (Option String × Option Nat)}
    (h : outline preset = (some list, 0)) {name : String} {count : Option Nat} (hname : (some name, count) ∈ list) :
    ∃ block, block.bit ∈ lent.items .bits a ∧ block.bit.info.name = some name ∧ rendered block = count ∧
      ∀ choice, PresetChoice.choose block.bit preset = .ok choice → lent.Binds lending a block.bit choice block := by
  obtain ⟨hfound, hchoices⟩ := Prod.mk.inj h
  rcases hrun : found preset with ⟨_ | blocks, u⟩
  · rw [hrun] at hfound
    cases hfound
  · rw [hrun] at hfound hchoices
    rw [← Option.some.inj hfound] at hname
    obtain ⟨block, hmem, hsummary⟩ := List.mem_map.mp hname
    obtain ⟨hname, hcount⟩ := Prod.mk.inj hsummary
    refine ⟨block, bit_mem_of_blocksOf rfl rfl hrun hmem, hname, hcount, fun choice hchoice => ?_⟩
    exact ⟨_, wholes preset, blocks, u, rfl, rfl, hchoice, hrun, hchoices.trans lent_facts.1.1.symm, hmem, rfl⟩

/-- A whole, bound to a preset that adds nothing and to its defaults. -/
theorem exists_blocks {name : String} (hwhole : name = "x" ∨ name = "y") {count count' : Option Nat}
    (h : (some name, count) ∈ [(some "x", some 2), (some "y", some 2)])
    (h' : (some name, count') ∈ [(some "x", some 2), (some "y", some 1)]) :
    ∃ b ∈ lent.items .bits a, b.info.name = some name ∧ b.defaults.context = [] ∧ ∃ place e block block',
      e.Plain ∧ lent.Binds lending a b (.declared place e) block ∧ lent.Binds lending a b .defaults block' ∧
        rendered block = count ∧ rendered block' = count' := by
  obtain ⟨-, -, houtlines⟩ := lent_facts
  simp only [List.cons.injEq] at houtlines
  obtain ⟨hdefaults, hpreset, -⟩ := houtlines
  obtain ⟨block, hb, hbname, hcount, hbinds⟩ := exists_binds hpreset h
  obtain ⟨block', hb', hbname', hcount', hbinds'⟩ := exists_binds hdefaults h'
  have hsame : block'.bit = block.bit := lent_unique hb' hb (hbname'.trans hbname.symm)
  have htraits : traits block.bit = (some name, true, true) := by
    have hmem : traits block.bit ∈ (lent.items .bits a).map traits := List.mem_map_of_mem hb
    rw [lent_facts.2.1.1] at hmem
    have hfirst : (traits block.bit).1 = some name := hbname
    simp only [List.mem_cons, List.not_mem_nil, or_false] at hmem
    rcases hwhole with rfl | rfl <;> rcases hmem with htraits | htraits | htraits | htraits <;>
      first
      | exact htraits
      | (rw [htraits] at hfirst; exact absurd hfirst (by decide))
  obtain ⟨-, hempty, hplain⟩ := And.imp_right Prod.mk.inj (Prod.mk.inj htraits)
  split at hplain
  · rename_i place e hchoice
    exact ⟨block.bit, hb, hbname, List.isEmpty_iff.mp hempty, place, e, block, block', of_decide_eq_true hplain,
      hbinds _ hchoice, hsame ▸ hbinds' .defaults rfl, hcount, hcount'⟩
  · cases hplain

end Store.Shelf

/-- The bit is declared here, and both its blocks have two parts. -/
theorem Store.Served.plain_preset_layers_of_lent : ∃ b ∈ Shelf.lent.own .bits Shelf.a, ∃ place e block block',
    PresetDecl.Plain e ∧ Shelf.lent.Binds Shelf.lending Shelf.a b (.declared place e) block ∧
      Shelf.lent.Binds Shelf.lending Shelf.a b .defaults block' ∧ Shelf.rendered block = some 2 ∧
      block.layered (Shelf.lent.renderer.defaults b.info.id) [] =
        block'.layered (Shelf.lent.renderer.defaults b.info.id) [] := by
  obtain ⟨⟨hchoices, hloaded, hnow⟩, ⟨-, hown⟩, -⟩ := Shelf.lent_facts
  obtain ⟨b, hb, hname, hcontext, place, e, block, block', he, hblock, hblock', hcount, -⟩ :=
    Shelf.exists_blocks (.inl rfl) (.head _) (.head _)
  have hmem : b ∈ Shelf.lent.own .bits Shelf.a := by
    have hname' : some "x" ∈ (Shelf.lent.own .bits Shelf.a).map fun b => b.info.name := by
      rw [hown]
      decide
    obtain ⟨b', hb', hname'⟩ := List.mem_map.mp hname'
    rwa [Shelf.lent_unique hb (Shelf.lent.own_subset .bits Shelf.a hb') (hname.trans hname'.symm)]
  have hempty : (ContextValue.map []).Keyed := Context.Listed.nil.keyed
  refine ⟨b, hmem, place, e, block, block', he, hblock, hblock', hcount, ?_⟩
  exact Served.plain_preset_layers (.start {}) (.get Shelf.lending Shelf.a) hchoices hloaded hnow hb (.inl hmem) he hblock hblock'
    (hcontext ▸ hempty) hempty

/-- A bit of another registry can have other parts here than where it is declared. Then a preset that adds nothing
and the defaults are not the same. -/
theorem Store.Served.plain_preset_layers_not_of_lent : ∃ b ∈ Shelf.lent.items .bits Shelf.a, ∃ place e block block',
    PresetDecl.Plain e ∧ Shelf.lent.Binds Shelf.lending Shelf.a b (.declared place e) block ∧
      Shelf.lent.Binds Shelf.lending Shelf.a b .defaults block' ∧
      block.layered (Shelf.lent.renderer.defaults b.info.id) [] ≠
        block'.layered (Shelf.lent.renderer.defaults b.info.id) [] := by
  obtain ⟨b, hb, -, -, place, e, block, block', he, hblock, hblock', hcount, hcount'⟩ :=
    Shelf.exists_blocks (.inr rfl) (.tail _ (.head _)) (.tail _ (.head _))
  refine ⟨b, hb, place, e, block, block', he, hblock, hblock', fun hsame => ?_⟩
  obtain ⟨_, _, _, _, -, -, -, -, -, -, hbit⟩ := hblock
  obtain ⟨_, _, _, _, -, -, -, -, -, -, hbit'⟩ := hblock'
  unfold Shelf.rendered at hcount hcount'
  rw [hbit, hsame] at hcount
  rw [hbit'] at hcount'
  cases hcount.symm.trans hcount'

end Bitpress
