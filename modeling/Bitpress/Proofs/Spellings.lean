import Bitpress.Proofs.Preset.Respelled

/-!
Older and newer spellings.

Queries among the variables of a context are an older spelling of queries. What
comes of moving them behind the declared queries of the same target, bit or preset:
for a target nothing changes, and for a bit and a preset nothing changes but in the
cases that are named here (`spellings_agree`).
-/

namespace Bitpress

/-- A declaration with its older queries moved behind its own ones stands for the same. A target has the same spec,
whichever of its bases are spelled anew. A bit is the same bit, unless its defaults are read in another way then. After
a request, a preset of a bit that a loaded registry shows comes to the same variables, unless something else has to do
with what is moved. -/
theorem spellings_agree :
    (∀ {m : Type → Type} [Monad m] [LawfulMonad m] (source : TargetSource m)
        (change : Location → String → TargetDecl → TargetDecl), (∀ file name d, TargetDecl.Spells d (change file name d)) →
      ∀ room file d d', TargetDecl.Spells d d' →
        Inheritance.specOf (Inheritance.changed source change) room file d' = Inheritance.specOf source room file d) ∧
    (∀ d : BitDecl, (DefaultsSpec.declaredContext d.defaults).Distinct →
      DefaultsSpec.isStructured (DefaultsSpec.respelled d.defaults) = DefaultsSpec.isStructured d.defaults →
      ∀ tags, Bit.ofDecl { d with defaults := DefaultsSpec.respelled d.defaults } tags = Bit.ofDecl d tags) ∧
    ∀ {s : Store}, s.Served → ∀ (c : Call) {p}, ((c.after s).registry p).status = .loaded →
      s.generation < ((c.after s).registry p).generation →
        ∀ b ∈ (c.after s).items .bits p, ∀ place (e : PresetDecl), e.context.Distinct → e.Apart b →
          (c.after s).ComeAlike c.library p b (.declared place e) (.declared place e.respelled) :=
  ⟨fun source _ hchange room file _ _ h => Inheritance.specOf_spells hchange source room file h,
    fun _ hcontext h tags => Bit.ofDecl_respelled hcontext h tags,
    fun hs _ _ hloaded hnow _ hb place _ hcontext hapart =>
      (hs.loaded hloaded hnow).comeAlike_respelled hb place hcontext hapart⟩

/-! ### A preset with an older query -/

namespace Store.Shelf

/-- A bit with defaults and a preset that has an older query, and the bit that this finds. -/
def older (defaults overrides : String) : Library :=
  library ("bits:\n- name: x\n  src: X\n  defaults: " ++ defaults ++
    "\n  presets:\n  - context: {blocks: {where: {name: z}}}\n    overrides: " ++ overrides ++
    "\n- name: z\n  src: Z\n") ""

/-- The defaults have another query. -/
def aside : Library := older "{queries: {has: {where: {name: z}}}}" "[]"

/-- The defaults have a query of the same name. -/
def queried : Library := older "{queries: {blocks: {where: {name: y}}}}" "[]"

/-- The defaults have another name for what the query finds. -/
def renamed : Library := older "{compose: {blocks: {as: has}}}" "[]"

/-- An override takes the query away. -/
def removed : Library := older "{queries: {has: {where: {name: z}}}}" "[{path: context.blocks, op: remove}]"

/-- There are overrides, but no queries. -/
def bare : Library := older "{}" "[{path: context.a}]"

/-- The store after a request for a library. -/
def served (l : Library) : Store := (Call.get l a).after {}

/-- What a preset comes to: whether to any variables, the names of the blocks if there are any among these, and how
many unseeded choices have been made by then. -/
structure Result where
  resolves : Bool
  blocks : Option (List (Option String))
  choices : Nat
deriving DecidableEq

/-- The names of the blocks among variables. -/
def blocksIn (v : Context) : Option (List (Option String)) :=
  (v.valueAt? "blocks").map fun
    | .list items => items.map ContextValue.elementName?
    | _ => []

def resultOf (t : Store) (l : Library) (p : Location) (b : Bit) (choice : PresetChoice) : Result :=
  let run := effect ((t.resolver l p).ofChoice ((t.resolver l p).presets + 1) b choice) { store := t }
  ⟨run.1.isOk, run.1.toOption.bind blocksIn, run.2.store.session.choices⟩

/-- A preset: whether it has an older query and no other one, whether nothing else has to do with that, and what it comes
to in both spellings. -/
structure Spelled where
  older : Bool
  apart : Bool
  before : Result
  after : Result
deriving DecidableEq

def spelledOf (t : Store) (l : Library) (p : Location) (b : Bit) (e : PresetDecl) : Spelled where
  older := decide e.context.Distinct && e.context.hasKey "blocks" && e.queries.isEmpty
  apart := decide (e.Apart b)
  before := resultOf t l p b (.declared 0 e)
  after := resultOf t l p b (.declared 0 e.respelled)

/-- A library can be read without an unseeded choice. Its only preset is as given. -/
def Shows (l : Library) (row : Spelled) : Prop :=
  ((served l).session.choices = 0 ∧ ((served l).registry a).status = .loaded ∧ 0 < ((served l).registry a).generation) ∧
    ((served l).items .bits a).map (fun b => b.presets.map (spelledOf (served l) l a b)) = [[row], []]

instance (l : Library) (row : Spelled) : Decidable (Shows l row) := inferInstanceAs (Decidable (_ ∧ _))

theorem aside_shows : Shows aside ⟨true, true, ⟨true, some [some "z"], 0⟩, ⟨true, some [some "z"], 0⟩⟩ := by
  decide +kernel

theorem queried_shows : Shows queried ⟨true, false, ⟨true, some [], 0⟩, ⟨true, some [some "z"], 0⟩⟩ := by
  decide +kernel

theorem renamed_shows : Shows renamed ⟨true, false, ⟨true, some [some "z"], 0⟩, ⟨true, none, 0⟩⟩ := by
  decide +kernel

theorem removed_shows : Shows removed ⟨true, false, ⟨true, none, 0⟩, ⟨true, some [some "z"], 0⟩⟩ := by
  decide +kernel

theorem bare_shows : Shows bare ⟨true, false, ⟨false, none, 0⟩, ⟨true, some [some "z"], 0⟩⟩ := by
  decide +kernel

variable {t : Store} {l : Library} {p : Location} {b : Bit} {choice choice' : PresetChoice} {v : Context}

theorem exists_preset {row : Spelled} (h : Shows l row) (holder : row.older = true) :
    ∃ b ∈ (served l).items .bits a, ∃ e, b.presets[0]? = some e ∧ e.context.Distinct ∧ e.queries = [] ∧
      e.context.hasKey "blocks" = true ∧ spelledOf (served l) l a b e = row := by
  have hmem : [row] ∈ ((served l).items .bits a).map fun b => b.presets.map (spelledOf (served l) l a b) := by
    rw [h.2]
    exact List.mem_cons_self ..
  obtain ⟨b, hb, hpresets⟩ := List.mem_map.mp hmem
  obtain ⟨e, hpresets, hrow⟩ := List.map_eq_singleton_iff.mp hpresets
  rw [← hrow] at holder
  obtain ⟨hcontext, hqueries⟩ := Bool.and_eq_true_iff.mp holder
  obtain ⟨hdistinct, hblocks⟩ := Bool.and_eq_true_iff.mp hcontext
  exact ⟨b, hb, e, by rw [hpresets]; rfl, of_decide_eq_true hdistinct, List.isEmpty_iff.mp hqueries, hblocks, hrow⟩

theorem resultOf_eq (h : t.ComesTo l p b choice v) : resultOf t l p b choice = ⟨true, blocksIn v, t.session.choices⟩ := by
  obtain ⟨u, heffect, hchoices⟩ := h
  unfold resultOf
  rw [heffect, ← hchoices]
  rfl

theorem exists_comesTo (h : (resultOf t l p b choice).resolves = true)
    (hchoices : (resultOf t l p b choice).choices = t.session.choices) : ∃ v, t.ComesTo l p b choice v := by
  unfold resultOf at h hchoices
  rcases hrun : effect ((t.resolver l p).ofChoice ((t.resolver l p).presets + 1) b choice) { store := t } with
    ⟨_ | v, u⟩
  · rw [hrun] at h
    cases h
  · rw [hrun] at hchoices
    exact ⟨v, u, hrun, hchoices⟩

/-- Presets that come to the same have the same blocks, if one of them comes to anything. -/
theorem resultOf_congr (h : t.ComeAlike l p b choice choice')
    (hresolves : (resultOf t l p b choice).resolves = true ∨ (resultOf t l p b choice').resolves = true)
    (hchoices : (resultOf t l p b choice).choices = t.session.choices)
    (hchoices' : (resultOf t l p b choice').choices = t.session.choices) :
    resultOf t l p b choice = resultOf t l p b choice' := by
  obtain ⟨v, v', hv, hv', hsame⟩ : ∃ v v', t.ComesTo l p b choice v ∧ t.ComesTo l p b choice' v' ∧ Table.Same v v' := by
    rcases hresolves with hresolves | hresolves
    · obtain ⟨v, hv⟩ := exists_comesTo hresolves hchoices
      obtain ⟨v', hv', hsame⟩ := h.1 v hv
      exact ⟨v, v', hv, hv', hsame⟩
    · obtain ⟨v', hv'⟩ := exists_comesTo hresolves hchoices'
      obtain ⟨v, hv, hsame⟩ := h.2 v' hv'
      exact ⟨v, v', hv, hv', hsame⟩
  rw [resultOf_eq hv, resultOf_eq hv', blocksIn, blocksIn, hsame.values]

/-- A preset with an older query that comes to something else when it is spelled anew. -/
theorem exists_not_comeAlike {row : Spelled} (h : Shows l row) (holder : row.older = true)
    (hresolves : row.after.resolves = true) (hchoices : row.before.choices = 0 ∧ row.after.choices = 0)
    (hne : row.before ≠ row.after) : ∃ b ∈ (served l).items .bits a, ∃ e, b.presets[0]? = some e ∧ e.context.Distinct ∧
      e.queries = [] ∧ e.context.hasKey "blocks" = true ∧
        ¬ (served l).ComeAlike l a b (.declared 0 e) (.declared 0 e.respelled) := by
  obtain ⟨b, hb, e, hpreset, hcontext, hqueries, hblocks, rfl⟩ := exists_preset h holder
  refine ⟨b, hb, e, hpreset, hcontext, hqueries, hblocks, fun halike => hne ?_⟩
  exact resultOf_congr halike (.inr hresolves) (hchoices.1.trans h.1.1.symm) (hchoices.2.trans h.1.1.symm)

/-- Two targets in one file. The one that the other extends has an older query. -/
def heirs : TargetSource Id where
  declaration _ name := return if name = "base" then some { name, context := [("blocks", .map [])] } else none
  locate file _ := return file
  warn _ := return

def heir : TargetDecl := { name := some "heir", extends? := some (.one "base") }

theorem heir_queries : ((Inheritance.specOf heirs 1 a heir).run.run {}).1.toOption.map (fun spec => spec.queries.keyList) =
    some ["blocks"] := by
  decide +kernel

/-- Spells all targets anew. -/
def spell (_ : Location) (_ : String) (d : TargetDecl) : TargetDecl := if d.context.Distinct then d.respelled else d

theorem spells (file : Location) (name : String) (d : TargetDecl) : d.Spells (spell file name d) := by
  unfold spell
  split
  · rename_i hdistinct
    exact .inr ⟨hdistinct, rfl⟩
  · exact .inl rfl

/-- A bit whose defaults have an older query among the variables. -/
def mixed : BitDecl := { defaults := [("color", .str "red"), ("blocks", .map [])] }

end Store.Shelf

open Store

/-- A target, a bit, and a preset that comes to the same block. -/
theorem spellings_agree_of_aside :
    (Inheritance.specOf (Inheritance.changed Shelf.heirs Shelf.spell) 1 Shelf.a Shelf.heir =
      Inheritance.specOf Shelf.heirs 1 Shelf.a Shelf.heir ∧
      ((Inheritance.specOf Shelf.heirs 1 Shelf.a Shelf.heir).run.run {}).1.toOption.map (fun spec => spec.queries.keyList) =
        some ["blocks"]) ∧
    Bit.ofDecl { Shelf.mixed with defaults := DefaultsSpec.respelled Shelf.mixed.defaults } [] = Bit.ofDecl Shelf.mixed [] ∧
    ∃ b ∈ (Shelf.served Shelf.aside).items .bits Shelf.a, ∃ e v v', b.presets[0]? = some e ∧
      e.context.hasKey "blocks" = true ∧ e.queries = [] ∧ e.Apart b ∧
      (Shelf.served Shelf.aside).ComesTo Shelf.aside Shelf.a b (.declared 0 e) v ∧
      (Shelf.served Shelf.aside).ComesTo Shelf.aside Shelf.a b (.declared 0 e.respelled) v' ∧
      Shelf.blocksIn v = some [some "z"] ∧ Table.Same v v' := by
  obtain ⟨htargets, hbits, hpresets⟩ := spellings_agree
  obtain ⟨hchoices, hloaded, hnow⟩ := Shelf.aside_shows.1
  obtain ⟨b, hb, e, hpreset, hcontext, hqueries, hblocks, hrow⟩ := Shelf.exists_preset Shelf.aside_shows rfl
  injection hrow with _ hapart hbefore _
  have hapart : e.Apart b := of_decide_eq_true hapart
  have halike := hpresets (.start {}) (.get Shelf.aside Shelf.a) hloaded hnow b hb 0 e hcontext hapart
  obtain ⟨v, hv⟩ : ∃ v, (Shelf.served Shelf.aside).ComesTo Shelf.aside Shelf.a b (.declared 0 e) v :=
    Shelf.exists_comesTo (by rw [hbefore]) (by rw [hbefore]; exact hchoices.symm)
  obtain ⟨v', hv', hsame⟩ := halike.1 v hv
  have hfound := (Shelf.resultOf_eq hv).symm.trans hbefore
  injection hfound with _ hfound _
  exact ⟨⟨htargets _ _ Shelf.spells 1 _ _ _ (.inl rfl), Shelf.heir_queries⟩, hbits _ (by decide) (by decide) [],
    b, hb, e, v, v', hpreset, hblocks, hqueries, hapart, hv, hv', hfound, hsame⟩

/-- Where something else has to do with the older query of a preset, the two spellings do not come to the same. Nor do
those of defaults that are read in another way then. -/
theorem spellings_agree_not_of_queried :
    (∀ l ∈ [Shelf.queried, Shelf.renamed, Shelf.removed, Shelf.bare],
      ∃ b ∈ (Shelf.served l).items .bits Shelf.a, ∃ e, b.presets[0]? = some e ∧ e.context.Distinct ∧
        e.queries = [] ∧ e.context.hasKey "blocks" = true ∧
          ¬ (Shelf.served l).ComeAlike l Shelf.a b (.declared 0 e) (.declared 0 e.respelled)) ∧
    ∃ defaults, (DefaultsSpec.declaredContext defaults).Distinct ∧
      (DefaultsSpec.declaredContext defaults).hasKey "blocks" = true ∧
        DefaultsSpec.ofTable (DefaultsSpec.respelled defaults) ≠ DefaultsSpec.ofTable defaults := by
  refine ⟨?_, [("context", .map [("a", .int 1)]), ("blocks", .map [])], by decide, by decide, fun hsame => ?_⟩
  · simp only [List.forall_mem_cons]
    refine ⟨?_, ?_, ?_, ?_, fun _ h => by cases h⟩
    · exact Shelf.exists_not_comeAlike Shelf.queried_shows rfl rfl ⟨rfl, rfl⟩ (by decide)
    · exact Shelf.exists_not_comeAlike Shelf.renamed_shows rfl rfl ⟨rfl, rfl⟩ (by decide)
    · exact Shelf.exists_not_comeAlike Shelf.removed_shows rfl rfl ⟨rfl, rfl⟩ (by decide)
    · exact Shelf.exists_not_comeAlike Shelf.bare_shows rfl rfl ⟨rfl, rfl⟩ (by decide)
  · exact absurd (congrArg (fun spec => spec.context.keyList) hsame) (by decide)

end Bitpress
