import Bitpress.Proofs.Declaration.Document
import Bitpress.Proofs.Interpolation
import Bitpress.Proofs.Merge

/-!
The sources of the bits of Markdown text.

Each section behind the header is a bit, and its source is made of the code blocks
of the section (`Sourced`): the text of the only block if that has no name, and
otherwise a table of the blocks under their names. In a table a name stands once, so
of two blocks with one name the first is lost. A parsed text thus keeps the texts of
all blocks of a bit, in their order, exactly if they have names of their own
(`parse_texts`).
-/

namespace Bitpress

/-! ### Trees that YAML text is read as -/

namespace Yaml

open Outcome

variable {text : String} {t : Tree}

theorem keyed_of_wholeTree {n : Int} {r : Decoded Tree} (h : wholeTree n = some r) (hr : r = .ok t) : t.Keyed := by
  subst hr
  unfold wholeTree at h
  split at h
  · cases h
    exact Tree.keyed_of_ne nofun
  · split at h
    · cases h
    · split at h <;> cases h

theorem keyed_realTree (x : Binary64) : (realTree x).Keyed := by
  unfold realTree
  split <;> exact Tree.keyed_of_ne nofun

theorem keyed_of_plainTree (h : plainTree text = .ok t) : t.Keyed := by
  unfold plainTree at h
  dsimp only at h
  split at h
  · cases h
    exact Tree.keyed_of_ne nofun
  · split at h
    · cases h
      exact Tree.keyed_of_ne nofun
    · split at h
      · rename_i r hwhole
        obtain ⟨n, _, hn⟩ := Option.bind_eq_some_iff.mp hwhole
        exact keyed_of_wholeTree hn h
      · split at h
        · cases h
          exact keyed_realTree _
        · cases h
          exact Tree.keyed_of_ne nofun

theorem keyed_of_taggedTree {tag : String} (h : taggedTree tag text = .ok t) : t.Keyed := by
  unfold taggedTree at h
  dsimp only at h
  split at h
  · cases h
  · split at h
    · split at h <;> cases h
      exact Tree.keyed_of_ne nofun
    · split at h
      · split at h
        · rename_i r hwhole
          obtain ⟨n, _, hn⟩ := Option.bind_eq_some_iff.mp hwhole
          exact keyed_of_wholeTree hn h
        · cases h
      · split at h
        · split at h <;> cases h
          exact keyed_realTree _
        · split at h
          · split at h <;> cases h
            exact Tree.keyed_of_ne nofun
          · cases h
            exact Tree.keyed_of_ne nofun

theorem keyed_of_scalarTree {plain : Bool} {tag : Option String} (h : scalarTree text plain tag = .ok t) : t.Keyed := by
  unfold scalarTree at h
  split at h
  · exact keyed_of_taggedTree h
  · split at h
    · exact keyed_of_plainTree h
    · cases h
      exact Tree.keyed_of_ne nofun

theorem keyed_of_node {n : Node} (h : n.tree = .ok t) : t.Keyed := by
  cases n with
  | scalar text plain tag first => exact keyed_of_scalarTree h
  | list items tag first =>
    obtain ⟨_, _, h⟩ := bind_eq_ok.mp h
    obtain ⟨trees, _, h⟩ := bind_eq_ok.mp h
    cases h
    exact Tree.keyed_of_ne nofun
  | map entries tag first =>
    obtain ⟨_, _, h⟩ := bind_eq_ok.mp h
    obtain ⟨pairs, _, h⟩ := bind_eq_ok.mp h
    cases h
    exact Tree.keyed_map.mpr (Table.distinct_ofPairs pairs)

/-- A map that is read has no key twice. -/
theorem keyed_of_read (h : read text = .ok t) : t.Keyed := by
  unfold read at h
  split at h
  · cases h
  · split at h
    · cases h
    · rename_i htree
      split at h <;> cases h
      exact keyed_of_node htree
    · cases h

end Yaml

namespace Document

variable {text path : String} {vars : Variables} {t : Tree} {d : RegistryDocument}

theorem keyed_of_readYaml (h : readYaml text = .ok t) : t.Keyed := by
  unfold readYaml at h
  split at h
  · cases h
    exact Tree.keyed_of_ne nofun
  · exact Yaml.keyed_of_read h

namespace Markdown

open Outcome Decode
open Bitpress.Markdown (CodeBlock codeBlocks)

/-! ### Sections and blocks -/

/-- The sections of the bits of a text, as lines. -/
def bodies (text : String) : List (List String) :=
  ((sections none [] (Text.lines text)).drop 2).filter fun s => !Text.blankText (unlines s)

/-- The blocks of a section that have a language. -/
def sources (body : List String) : List CodeBlock := (codeBlocks body).filter fun b => b.language.isSome

theorem distinct_of_headerTable {notMap : String → DocumentFault} {entries : Table Tree}
    (h : (readYaml text >>= headerTable notMap) = .ok entries) : entries.Distinct := by
  obtain ⟨t, ht, h⟩ := bind_eq_ok.mp h
  unfold headerTable at h
  split at h
  · cases h
    exact Tree.keyed_map.mp (keyed_of_readYaml ht)
  · cases h
    exact List.nodup_nil
  · cases h

/-- What is read of a section: its header, and its blocks under `src`. -/
theorem bitOf_eq_ok {body : List String} (h : bitOf body = .ok t) :
    ∃ header : Table Tree, ∃ src, header.Distinct ∧ sourceOf (sources body) = .ok src ∧
      t = .map (header.put "src" src) := by
  unfold bitOf at h
  dsimp only at h
  split at h
  · cases h
  · obtain ⟨yaml, hyaml, h⟩ := bind_eq_ok.mp h
    obtain ⟨header, hheader, h⟩ := bind_eq_ok.mp h
    obtain ⟨src, hsrc, h⟩ := bind_eq_ok.mp h
    cases h
    exact ⟨header, src, distinct_of_headerTable (bind_eq_ok.mpr ⟨yaml, hyaml, hheader⟩), hsrc, rfl⟩

/-- What is read of a text: its header, and its bits under `bits` if it has any. -/
theorem read_eq_ok (h : read text = .ok t) :
    ∃ root : Table Tree, ∃ bits, root.Distinct ∧ List.Forall₂ (fun body bit => bitOf body = .ok bit) (bodies text) bits ∧
      t = .map (if bits.isEmpty then root else root.put "bits" (.list bits)) := by
  unfold read at h
  split at h
  · rename_i preamble header rest hsections
    split at h
    · cases h
    · obtain ⟨yaml, hyaml, h⟩ := bind_eq_ok.mp h
      obtain ⟨root, hroot, h⟩ := bind_eq_ok.mp h
      obtain ⟨bits, hbits, h⟩ := bind_eq_ok.mp h
      cases h
      refine ⟨root, bits, distinct_of_headerTable (bind_eq_ok.mpr ⟨yaml, hyaml, hroot⟩), ?_, rfl⟩
      have hbodies : bodies text = rest.filter fun s => !Text.blankText (unlines s) := by
        unfold bodies
        rw [hsections]
        rfl
      rw [hbodies]
      exact mapM_eq_ok.mp hbits
  · cases h

/-! ### Sources -/

/-- The source that blocks are made into: the text of the only one, or texts under names. Of a name that stands twice
the first place and the last block count. -/
inductive Sourced (vars : Variables) : List CodeBlock → BitSource → Prop
  | single (b : CodeBlock) (hname : fragmentName? b = none) : Sourced vars [b] (.single (vars.fill (lineText b)))
  | fragments (named : Table CodeBlock) (hnames : ∀ e ∈ named, fragmentName? e.2 = some e.1) :
      Sourced vars (named.map Prod.snd)
        (.fragments (Table.mapValues (fun b => vars.fill (lineText b)) (Table.ofPairs named)))

/-- The entry of a block in the table of its bit. -/
def entryOf (b : CodeBlock) : Except DocumentFault (String × Tree) :=
  match fragmentName? b with
  | some name => .ok (name, .str (lineText b))
  | none => .error .unnamedFragment

theorem entryOf_eq_ok {b : CodeBlock} {e : String × Tree} (h : entryOf b = .ok e) :
    fragmentName? b = some e.1 ∧ e.2 = .str (lineText b) := by
  unfold entryOf at h
  split at h
  · rename_i name hname
    cases h
    exact ⟨hname, rfl⟩
  · cases h

/-- Blocks that have entries have names. -/
theorem exists_named {blocks : List CodeBlock} {parts : List (String × Tree)}
    (h : List.Forall₂ (fun b e => entryOf b = .ok e) blocks parts) :
    ∃ named : Table CodeBlock, named.map Prod.snd = blocks ∧ (∀ e ∈ named, fragmentName? e.2 = some e.1) ∧
      parts = named.mapValues fun b => .str (lineText b) := by
  induction h with
  | nil => exact ⟨[], rfl, nofun, rfl⟩
  | @cons b e blocks parts hfirst _ ih =>
    obtain ⟨named, rfl, hnames, rfl⟩ := ih
    obtain ⟨name, t⟩ := e
    obtain ⟨hname, rfl⟩ := entryOf_eq_ok hfirst
    exact ⟨(name, b) :: named, rfl, List.forall_mem_cons.mpr ⟨hname, hnames⟩, rfl⟩

/-- What blocks are read as is, filled, the source that they are made into. -/
theorem exists_sourced {blocks : List CodeBlock} (vars : Variables) (h : sourceOf blocks = .ok t) :
    ∃ source, Sourced vars blocks source ∧ t.fillStrings vars = source.encode := by
  have hnamed : ∀ blocks : List CodeBlock, (blocks.mapM entryOf >>= fun parts => .ok (.map (Table.ofPairs parts))) = .ok t →
      ∃ source, Sourced vars blocks source ∧ t.fillStrings vars = source.encode := by
    intro blocks h
    obtain ⟨parts, hparts, h⟩ := bind_eq_ok.mp h
    cases h
    obtain ⟨named, rfl, hnames, rfl⟩ := exists_named (mapM_eq_ok.mp hparts)
    refine ⟨_, .fragments named hnames, ?_⟩
    rw [Tree.fillStrings, Tree.fillEntries_eq, ← Table.mapValues_ofPairs]
    simp [BitSource.encode, Table.mapValues, Tree.fillStrings]
  unfold sourceOf at h
  split at h
  · rename_i b
    by_cases hname : (fragmentName? b).isNone
    · rw [if_pos hname] at h
      cases h
      exact ⟨_, .single b (Option.isNone_iff_eq_none.mp hname), rfl⟩
    · rw [if_neg hname] at h
      exact hnamed [b] h
  · exact hnamed blocks h

/-- The texts of a source, in order. -/
def texts : BitSource → List String
  | .single text => [text]
  | .fragments parts => parts.map Prod.snd

/-- The texts of all blocks are kept if the blocks have names of their own, and in no other case. -/
theorem Sourced.texts_eq_iff {blocks : List CodeBlock} {source : BitSource} (h : Sourced vars blocks source) :
    texts source = blocks.map (fun b => vars.fill (lineText b)) ↔ (blocks.map fragmentName?).Nodup := by
  cases h with
  | single b hname => simp [texts]
  | fragments named hnames =>
    have hmapped : (named.map Prod.snd).map fragmentName? = named.keyList.map some := by
      rw [List.map_map]
      unfold Table.keyList
      rw [List.map_map]
      exact List.map_congr_left hnames
    rw [hmapped, List.nodup_map_iff (Option.some_injective _)]
    refine ⟨fun h => Table.length_ofPairs.mp ?_, fun h => ?_⟩
    · simpa [texts, Table.mapValues] using congrArg List.length h
    · rw [Table.ofPairs_eq_self.mpr h]
      simp [texts, Table.mapValues]

/-! ### Bits -/

theorem sourced_of_bitOf {body : List String} {b : BitDecl} (h : bitOf body = .ok t)
    (hb : BitDecl.decode (t.fillStrings vars) = .ok b) : Sourced vars (sources body) b.src := by
  obtain ⟨header, src, hheader, hsrc, rfl⟩ := bitOf_eq_ok h
  obtain ⟨source, hsourced, hencode⟩ := exists_sourced vars hsrc
  rw [Tree.fillStrings, Tree.fillEntries_eq] at hb
  have hread : BitSource.decode (src.fillStrings vars) = .ok b.src := by
    have hpart := Fills.part hb BitDecl.reads_src ((hheader.put "src" src).mapValues _)
    rwa [Table.valueAt?_mapValues, Table.valueAt?_put_self] at hpart
  rw [hencode, source.decode_encode] at hread
  exact Except.ok.inj hread ▸ hsourced

theorem sourced_of_bits {bs : List (List String)} {bits : List Tree} {made : List BitDecl}
    (hbits : List.Forall₂ (fun body bit => bitOf body = .ok bit) bs bits)
    (hmade : List.Forall₂ (fun bit b => BitDecl.decode (bit.fillStrings vars) = .ok b) bits made) :
    List.Forall₂ (fun body b => Sourced vars (sources body) b.src) bs made := by
  induction hbits generalizing made with
  | nil =>
    cases hmade
    exact .nil
  | cons hbody _ ih =>
    cases hmade with
    | cons hfirst hrest => exact .cons (sourced_of_bitOf hbody hfirst) (ih hrest)

/-- Each section behind the header is a bit, whose source is made of the blocks of the section. -/
theorem parse_sources (h : parse .markdown path vars text = .ok d) (hbodies : bodies text ≠ []) :
    List.Forall₂ (fun body b => Sourced vars (sources body) b.src) (bodies text) d.bits := by
  obtain ⟨t, htree, hdecode⟩ := parse_eq_ok.mp h
  obtain ⟨root, bits, hroot, hbits, rfl⟩ := read_eq_ok htree
  have hsome : bits.isEmpty = false := by
    rw [List.isEmpty_eq_false_iff, ← List.length_pos_iff, ← hbits.length_eq]
    exact List.length_pos_iff.mpr hbodies
  rw [hsome, if_neg Bool.false_ne_true, ← Tree.fillStrings_eq_interpolate, Tree.fillStrings, Tree.fillEntries_eq] at hdecode
  have hread : list BitDecl.decode (.list (bits.map (Tree.fillStrings vars))) = .ok d.bits := by
    have hpart := Fills.part hdecode RegistryDocument.reads_bits ((hroot.put "bits" _).mapValues _)
    rwa [Table.valueAt?_mapValues, Table.valueAt?_put_self, Option.map_some, Tree.fillStrings, Tree.fillItems_eq] at hpart
  exact sourced_of_bits hbits (List.forall₂_map_left_iff.mp (mapM_eq_ok.mp hread))

/-- **The texts of all blocks are kept, in order, exactly if no two blocks of a bit have one name.** -/
theorem parse_texts (h : parse .markdown path vars text = .ok d) (hbodies : bodies text ≠ []) :
    List.Forall₂ (fun body b => texts b.src = (sources body).map (fun block => vars.fill (lineText block)) ↔
      ((sources body).map fragmentName?).Nodup) (bodies text) d.bits :=
  (parse_sources h hbodies).imp fun _ _ hsourced => hsourced.texts_eq_iff

/-- Of two blocks with one name, the text of the first is lost. -/
example : bitOf ["name: b", "```latex part", "first", "```", "```latex part", "second", "```"] =
    .ok (.map [("name", .str "b"), ("src", .map [("part", .str "second")])]) := by
  cbv

end Markdown

end Document

end Bitpress
