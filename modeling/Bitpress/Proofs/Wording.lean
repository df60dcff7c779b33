import Bitpress.Inheritance
import Bitpress.Preset
import Bitpress.Proofs.Override.Place
import Bitpress.Proofs.Record

/-!
The texts of trees.

Trees are merged, patched, cut up and read, but no text in them is made up. So
what holds of every text in the declarations of a registry (`AllTexts`) holds of
every text in the specs, presets and queries that come of them.
-/

namespace Bitpress

open Outcome

variable {p : String → Prop}

namespace Tree

mutual

/-- Every text that is a value in the tree satisfies `p`. -/
def AllTexts (p : String → Prop) : Tree → Prop
  | .str s => p s
  | .list items => ItemTexts p items
  | .map entries => EntryTexts p entries
  | _ => True

def ItemTexts (p : String → Prop) : List Tree → Prop
  | [] => True
  | t :: rest => t.AllTexts p ∧ ItemTexts p rest

def EntryTexts (p : String → Prop) : List (String × Tree) → Prop
  | [] => True
  | (_, t) :: rest => t.AllTexts p ∧ EntryTexts p rest

end

end Tree

/-- Every text in the values of a table satisfies `p`. -/
def Table.AllTexts (p : String → Prop) (t : Table Tree) : Prop := ∀ e ∈ t, e.2.AllTexts p

namespace Tree

theorem allTexts_list {items : List Tree} : (list items).AllTexts p ↔ ∀ t ∈ items, t.AllTexts p := by
  show ItemTexts p items ↔ _
  induction items with
  | nil => simp [ItemTexts]
  | cons t rest ih => simp [ItemTexts, ih]

theorem allTexts_map {entries : Table Tree} : (map entries).AllTexts p ↔ entries.AllTexts p := by
  show EntryTexts p entries ↔ _
  unfold Table.AllTexts
  induction entries with
  | nil => simp [EntryTexts]
  | cons e rest ih => simp [EntryTexts, ih]

theorem AllTexts.part {t v : Tree} (h : t.AllTexts p) (hv : v.IsPart t) : v.AllTexts p := by
  cases t with
  | list items => exact allTexts_list.mp h v hv
  | map entries =>
    obtain ⟨key, hv⟩ := hv
    exact allTexts_map.mp h (key, v) hv
  | _ => cases hv

variable {q : String → Prop}

mutual

theorem AllTexts.imp (h : ∀ s, p s → q s) : (t : Tree) → t.AllTexts p → t.AllTexts q
  | .str s, ht => h s ht
  | .list items, ht => ItemTexts.imp h items ht
  | .map entries, ht => EntryTexts.imp h entries ht
  | .null, _ => trivial
  | .bool _, _ => trivial
  | .num _, _ => trivial

theorem ItemTexts.imp (h : ∀ s, p s → q s) : (items : List Tree) → ItemTexts p items → ItemTexts q items
  | [], _ => trivial
  | t :: rest, ht => ⟨AllTexts.imp h t ht.1, ItemTexts.imp h rest ht.2⟩

theorem EntryTexts.imp (h : ∀ s, p s → q s) :
    (entries : List (String × Tree)) → EntryTexts p entries → EntryTexts q entries
  | [], _ => trivial
  | (_, t) :: rest, ht => ⟨AllTexts.imp h t ht.1, EntryTexts.imp h rest ht.2⟩

end

end Tree

namespace Table.AllTexts

variable {t : Table Tree} {v : Tree} {key : String}

theorem nil : AllTexts p [] := fun _ h => by cases h

theorem valueAt? (h : t.AllTexts p) (hv : t.valueAt? key = some v) : v.AllTexts p :=
  h _ (Table.mem_of_valueAt? hv)

theorem put (h : t.AllTexts p) (hv : v.AllTexts p) : (t.put key v).AllTexts p := Table.forall_put h hv

theorem without (h : t.AllTexts p) : (t.without key).AllTexts p := Table.forall_without h

theorem append {u : Table Tree} (h : t.AllTexts p) (h' : u.AllTexts p) : Table.AllTexts p (t ++ u) := by
  intro e he
  rcases List.mem_append.mp he with he | he
  · exact h e he
  · exact h' e he

/-- The part of a tree under a key, if that is a map. -/
theorem ofPart {tree : Tree} (h : tree.AllTexts p) (key : String) :
    Table.AllTexts p (((tree.valueAt? key).bind Tree.table?).getD []) := by
  cases tree with
  | map entries =>
    show Table.AllTexts p (((Table.valueAt? entries key).bind Tree.table?).getD [])
    cases hv : Table.valueAt? entries key with
    | none => exact nil
    | some v =>
      have htexts := (Tree.allTexts_map.mp h).valueAt? hv
      cases v with
      | map inner => exact Tree.allTexts_map.mp htexts
      | _ => exact nil
  | _ => exact nil

end Table.AllTexts

/-! ### Merging -/

namespace Tree

mutual

theorem AllTexts.merge (lists : ListMerge) {base : Tree} (hbase : base.AllTexts p) :
    (overlay : Tree) → overlay.AllTexts p → (merge lists base overlay).AllTexts p
  | .map above, h => by
    cases base with
    | map entries => exact EntryTexts.merge lists hbase above h
    | _ => exact h
  | .list above, h => by
    cases base with
    | list items =>
      cases lists with
      | indexWise => exact ItemTexts.merge .indexWise hbase above h
      | replace => exact h
    | _ => exact h
  | .null, h => h
  | .bool _, h => h
  | .num _, h => h
  | .str _, h => h

theorem EntryTexts.merge (lists : ListMerge) {base : List (String × Tree)} (hbase : EntryTexts p base) :
    (overlay : List (String × Tree)) → EntryTexts p overlay → EntryTexts p (mergeEntries lists base overlay)
  | [], _ => hbase
  | (key, value) :: rest, ⟨hvalue, hrest⟩ => by
    have htable : Table.AllTexts p base := allTexts_map.mp hbase
    unfold mergeEntries
    split
    · rename_i there hthere
      have hmerged := AllTexts.merge lists (htable.valueAt? hthere) value hvalue
      exact EntryTexts.merge lists (allTexts_map.mpr (htable.put hmerged)) rest hrest
    · exact EntryTexts.merge lists (allTexts_map.mpr (htable.put hvalue)) rest hrest

theorem ItemTexts.merge (lists : ListMerge) {base : List Tree} (hbase : ItemTexts p base) :
    (overlay : List Tree) → ItemTexts p overlay → ItemTexts p (mergeItems lists base overlay)
  | [], _ => by
    unfold mergeItems
    cases base <;> exact hbase
  | o :: os, ⟨ho, hos⟩ => by
    cases base with
    | nil => exact ⟨ho, hos⟩
    | cons b bs =>
      unfold mergeItems
      refine ⟨?_, ItemTexts.merge lists hbase.2 os hos⟩
      split
      · exact AllTexts.merge lists hbase.1 o ho
      · exact ho

end

end Tree

theorem Table.AllTexts.merge {base overlay : Table Tree} (lists : ListMerge) (hbase : base.AllTexts p)
    (h : overlay.AllTexts p) : (Table.merge lists base overlay).AllTexts p :=
  Tree.allTexts_map.mp (Tree.EntryTexts.merge lists (Tree.allTexts_map.mpr hbase) overlay (Tree.allTexts_map.mpr h))

/-- What holds of the values of a context and of queries holds after the older queries are lifted. -/
theorem Legacy.forall_lift {good : Tree → Prop} {context queries : Table Tree} (hcontext : ∀ e ∈ context, good e.2)
    (hqueries : ∀ e ∈ queries, good e.2) :
    (∀ e ∈ (lift context queries).context, good e.2) ∧ ∀ e ∈ (lift context queries).queries, good e.2 := by
  have hkey : ∀ (l : Lifted) (key : String), ((∀ e ∈ l.context, good e.2) ∧ ∀ e ∈ l.queries, good e.2) →
      (∀ e ∈ (liftKey l key).context, good e.2) ∧ ∀ e ∈ (liftKey l key).queries, good e.2 := by
    intro l key h
    unfold liftKey
    split
    · exact h
    · rename_i t ht
      refine ⟨Table.forall_without h.1, ?_⟩
      dsimp only
      split
      · exact h.2
      · exact Table.forall_put h.2 (h.1 _ (Table.mem_of_valueAt? ht))
  exact hkey _ _ (hkey _ _ ⟨hcontext, hqueries⟩)

theorem Legacy.lift_allTexts {context queries : Table Tree} (hcontext : context.AllTexts p)
    (hqueries : queries.AllTexts p) :
    (lift context queries).context.AllTexts p ∧ (lift context queries).queries.AllTexts p :=
  forall_lift hcontext hqueries

/-! ### Overrides -/

namespace Tree

variable {t : Tree}

theorem AllTexts.changeStep (h : t.AllTexts p) (s : Segment) {change : Tree → Tree}
    (hchange : ∀ u : Tree, u.AllTexts p → (change u).AllTexts p) : (t.changeStep s change).AllTexts p := by
  unfold Tree.changeStep
  split
  · rename_i entries k
    have hentries := allTexts_map.mp h
    split
    · rename_i v hv
      exact allTexts_map.mpr (hentries.put (hchange v (hentries.valueAt? hv)))
    · exact h
  · rename_i items n
    refine allTexts_list.mpr fun u hu => ?_
    have hitems := allTexts_list.mp h
    obtain ⟨i, hi, rfl⟩ := List.mem_iff_getElem.mp hu
    rw [List.getElem_modify]
    split
    · exact hchange _ (hitems _ (List.getElem_mem _))
    · exact hitems _ (List.getElem_mem _)
  · exact h

theorem AllTexts.changeAt (h : t.AllTexts p) (path : List Segment) {change : Tree → Tree}
    (hchange : ∀ u : Tree, u.AllTexts p → (change u).AllTexts p) : (t.changeAt path change).AllTexts p := by
  induction path generalizing t with
  | nil => exact hchange t h
  | cons s rest ih => exact h.changeStep s fun u hu => ih hu

end Tree

theorem OverridePath.operate_allTexts (op : OverrideOp) {value node : Tree} (hvalue : value.AllTexts p)
    (h : node.AllTexts p) (s : Segment) : (operate op value node s).AllTexts p := by
  have hmodify : ∀ (items : List Tree) n (change : Tree → Tree), (Tree.list items).AllTexts p →
      (∀ u : Tree, u.AllTexts p → (change u).AllTexts p) → (Tree.list (items.modify n change)).AllTexts p :=
    fun items n _ hitems hchange => hitems.changeStep (.index (n + 1)) hchange
  unfold operate
  split
  · split
    · exact Tree.allTexts_map.mpr ((Tree.allTexts_map.mp h).put hvalue)
    · have hentries := Tree.allTexts_map.mp h
      split
      · rename_i there hthere
        exact Tree.allTexts_map.mpr (hentries.put ((hentries.valueAt? hthere).merge .indexWise value hvalue))
      · exact Tree.allTexts_map.mpr (hentries.put hvalue)
    · exact Tree.allTexts_map.mpr (Tree.allTexts_map.mp h).without
    · exact h
  · split
    · exact hmodify _ _ _ h fun _ _ => hvalue
    · exact hmodify _ _ _ h fun u hu => hu.merge .indexWise value hvalue
    · refine Tree.allTexts_list.mpr fun u hu => Tree.allTexts_list.mp h u ?_
      exact (List.eraseIdx_sublist _ _).subset hu
    · exact h

theorem OverrideDecl.apply_allTexts {o : OverrideDecl} {spec changed : Tree} (ho : o.value.AllTexts p)
    (h : spec.AllTexts p) (happly : o.apply spec = .ok changed) : changed.AllTexts p := by
  obtain ⟨path, _, happly⟩ := bind_eq_ok.mp happly
  obtain ⟨op, _, happly⟩ := bind_eq_ok.mp happly
  rcases List.eq_nil_or_concat path.withinSpec.segments with hsegments | ⟨above, last, hsegments⟩
  · rw [OverridePath.apply_of_nil hsegments] at happly
    cases happly
  · rw [OverridePath.apply_eq (hsegments.trans List.concat_eq_append)] at happly
    obtain ⟨_, _, happly⟩ := bind_eq_ok.mp happly
    cases happly
    exact h.changeAt _ fun node hnode => OverridePath.operate_allTexts op ho hnode _

theorem OverrideDecl.applyAll_allTexts {overrides : List OverrideDecl} {spec changed : Tree}
    (ho : ∀ o ∈ overrides, o.value.AllTexts p) (h : spec.AllTexts p)
    (happly : applyAll overrides spec = .ok changed) : changed.AllTexts p :=
  foldlM_keeps (fun o hmem _ _ hspec hstep => apply_allTexts (ho o hmem) hspec hstep) h happly

/-! ### Declarations -/

/-- Every text in the values of an override, a preset, a bit or a target satisfies `p`. -/
def OverrideDecl.AllTexts (p : String → Prop) (overrides : List OverrideDecl) : Prop :=
  ∀ o ∈ overrides, o.value.AllTexts p

structure PresetDecl.AllTexts (p : String → Prop) (d : PresetDecl) : Prop where
  context : d.context.AllTexts p
  queries : d.queries.AllTexts p
  compose : d.compose.AllTexts p
  overrides : OverrideDecl.AllTexts p d.overrides

structure BitDecl.AllTexts (p : String → Prop) (d : BitDecl) : Prop where
  defaults : d.defaults.AllTexts p
  presets : ∀ preset ∈ d.presets, preset.AllTexts p

structure TargetDecl.AllTexts (p : String → Prop) (d : TargetDecl) : Prop where
  template : ∀ s, d.template = some s → p s
  dest : ∀ s, d.dest = some s → p s
  context : d.context.AllTexts p
  queries : d.queries.AllTexts p
  compose : d.compose.AllTexts p
  overrides : OverrideDecl.AllTexts p d.overrides

structure RegistryDocument.AllTexts (p : String → Prop) (d : RegistryDocument) : Prop where
  bits : ∀ b ∈ d.bits, b.AllTexts p
  targets : ∀ t ∈ d.targets, t.AllTexts p

theorem RegistryDocument.AllTexts.imp {q : String → Prop} {d : RegistryDocument} (h : ∀ s, p s → q s)
    (hd : d.AllTexts p) : d.AllTexts q := by
  have htable : ∀ {t : Table Tree}, t.AllTexts p → t.AllTexts q := fun ht e he => (ht e he).imp h
  have hoverrides : ∀ {os : List OverrideDecl}, OverrideDecl.AllTexts p os → OverrideDecl.AllTexts q os :=
    fun ho o h' => (ho o h').imp h
  refine ⟨fun b hb => ?_, fun t ht => ?_⟩
  · obtain ⟨hdefaults, hpresets⟩ := hd.bits b hb
    refine ⟨htable hdefaults, fun preset hp => ?_⟩
    have hpreset := hpresets preset hp
    exact ⟨htable hpreset.context, htable hpreset.queries, htable hpreset.compose, hoverrides hpreset.overrides⟩
  · have ht := hd.targets t ht
    exact ⟨fun s hs => h s (ht.template s hs), fun s hs => h s (ht.dest s hs), htable ht.context,
      htable ht.queries, htable ht.compose, hoverrides ht.overrides⟩

theorem RegistryDocument.AllTexts.target? {d : RegistryDocument} (h : d.AllTexts p) {name : String}
    {t : TargetDecl} (ht : d.target? name = some t) : t.AllTexts p :=
  h.targets t (List.mem_of_find?_eq_some ht)

structure DefaultsSpec.AllTexts (p : String → Prop) (d : DefaultsSpec) : Prop where
  context : d.context.AllTexts p
  queries : d.queries.AllTexts p
  compose : d.compose.AllTexts p

theorem DefaultsSpec.ofTable_allTexts {t : Table Tree} (h : t.AllTexts p) : (ofTable t).AllTexts p := by
  have hpart : ∀ key, (tableAt t key).AllTexts p := fun key => Table.AllTexts.ofPart (Tree.allTexts_map.mpr h) key
  have hcontext : (declaredContext t).AllTexts p := by
    unfold declaredContext
    split
    · exact hpart "context"
    · exact fun e he => h e (List.mem_filter.mp he).1
  have hlifted := Legacy.lift_allTexts hcontext (hpart "queries")
  exact ⟨hlifted.1, hlifted.2, hpart "compose"⟩

structure Bit.AllTexts (p : String → Prop) (b : Bit) : Prop where
  defaults : b.defaults.AllTexts p
  presets : ∀ preset ∈ b.presets, preset.AllTexts p

theorem PresetDecl.laidOver_allTexts {d : PresetDecl} {part : Part} {base own laid : Table Tree}
    (hbase : base.AllTexts p) (hown : own.AllTexts p) (h : d.laidOver part base own = .ok laid) : laid.AllTexts p := by
  obtain ⟨policy, _, h⟩ := bind_eq_ok.mp h
  cases policy with
  | replace =>
    cases h
    exact hown
  | merge =>
    cases h
    exact hbase.merge .replace hown

theorem PresetDecl.tree_allTexts {b : Bit} {d : PresetDecl} {t : Tree} (hb : b.AllTexts p) (hd : d.AllTexts p)
    (h : d.tree b = .ok t) : t.AllTexts p := by
  obtain ⟨queries, hqueries, h⟩ := bind_eq_ok.mp h
  obtain ⟨compose, hcompose, h⟩ := bind_eq_ok.mp h
  have hq := laidOver_allTexts hb.defaults.queries hd.queries hqueries
  have hc := laidOver_allTexts hb.defaults.compose hd.compose hcompose
  have hparts : (Tree.map [("context", .map d.context), ("queries", .map queries),
      ("compose", .map compose)]).AllTexts p := by
    refine Tree.allTexts_map.mpr fun e he => ?_
    simp only [List.mem_cons, List.not_mem_nil, or_false] at he
    rcases he with rfl | rfl | rfl
    · exact Tree.allTexts_map.mpr hd.context
    · exact Tree.allTexts_map.mpr hq
    · exact Tree.allTexts_map.mpr hc
  split at h
  · cases h
  · exact OverrideDecl.applyAll_allTexts hd.overrides hparts h

structure TargetSpec.AllTexts (p : String → Prop) (s : TargetSpec) : Prop where
  context : s.context.AllTexts p
  queries : s.queries.AllTexts p
  compose : s.compose.AllTexts p

theorem TargetSpec.ofTree_allTexts {t : Tree} (h : t.AllTexts p) : (ofTree t).AllTexts p :=
  ⟨Table.AllTexts.ofPart h "context", Table.AllTexts.ofPart h "queries", Table.AllTexts.ofPart h "compose"⟩

theorem TargetSpec.ofDecl_allTexts {d : TargetDecl} (h : d.AllTexts p) :
    (TargetSpec.ofDecl d).toTable.AllTexts p := by
  have hword : ∀ (key : String) (word : Option String), (∀ s, word = some s → p s) →
      Table.AllTexts p (Encode.optional key .str word) := by
    intro key word hw e he
    cases word with
    | none => cases he
    | some s =>
      rw [List.mem_singleton.mp he]
      exact hw s rfl
  have hlifted := Legacy.lift_allTexts h.context h.queries
  refine ((hword "template" _ h.template).append (hword "dest" _ h.dest)).append fun e he => ?_
  simp only [List.mem_cons, List.not_mem_nil, or_false] at he
  rcases he with rfl | rfl | rfl
  · exact Tree.allTexts_map.mpr hlifted.1
  · exact Tree.allTexts_map.mpr hlifted.2
  · exact Tree.allTexts_map.mpr h.compose

namespace Inheritance

theorem mergePart_allTexts {hints : MergeHints} {acc made : Table Tree} {key : String} {value : Tree}
    (hacc : acc.AllTexts p) (hvalue : value.AllTexts p) (h : mergePart hints acc key value = .ok made) :
    made.AllTexts p := by
  obtain ⟨policy, _, h⟩ := bind_eq_ok.mp h
  split at h
  · rename_i there hthere hpolicy
    cases h
    exact hacc.put ((hacc.valueAt? hthere).merge .indexWise value hvalue)
  · cases h
    exact hacc.put hvalue

theorem mergeOwn_allTexts {d : TargetDecl} {tree made : Tree} (hd : d.AllTexts p) (htree : tree.AllTexts p)
    (h : mergeOwn d tree = .ok made) : made.AllTexts p := by
  cases tree with
  | map acc =>
    obtain ⟨table, htable, hmade⟩ := bind_eq_ok.mp h
    cases hmade
    have hown := TargetSpec.ofDecl_allTexts hd
    have hmerged : table.AllTexts p :=
      foldlM_keeps (fun e he _ _ hacc hstep => mergePart_allTexts hacc (hown e he) hstep) (Tree.allTexts_map.mp htree)
        htable
    exact Tree.allTexts_map.mpr hmerged
  | _ =>
    cases h
    exact htree

theorem mergeBase_allTexts {tree made : Tree} {base : Resolved} (htree : tree.AllTexts p)
    (hbase : base.tree.AllTexts p) (ho : OverrideDecl.AllTexts p base.overrides)
    (h : mergeBase tree base = .ok made) : made.AllTexts p :=
  OverrideDecl.applyAll_allTexts ho (htree.merge .indexWise _ hbase) h

end Inheritance

/-! ### Queries -/

namespace Decode

theorem table_allTexts {t : Tree} {entries : Table Tree} (ht : t.AllTexts p) (h : table t = .ok entries) :
    entries.AllTexts p := by
  cases t with
  | map inner =>
    cases h
    exact Tree.allTexts_map.mp ht
  | _ => cases h

theorem string_satisfies {t : Tree} {s : String} (ht : t.AllTexts p) (h : string t = .ok s) : p s := by
  cases t with
  | str inner =>
    cases h
    exact ht
  | _ => cases h

end Decode

/-- The identity that a clause asks for satisfies `p`. -/
def WhereClause.IdText (p : String → Prop) (w : WhereClause) : Prop := ∀ written, w.id = some written → p written

theorem WhereClause.field_idText {d d' : Draft} {key : String} {t : Tree} (ht : t.AllTexts p)
    (hd : d.clause.IdText p) (h : field d key t = .ok d') : d'.clause.IdText p := by
  have hid : ∀ {made : Draft}, (if d.seenId then (.error (.duplicateField "id") : Decoded Draft)
      else do return ⟨{ d.clause with id := ← Decode.optional Decode.string t }, true⟩) = .ok made →
      made.clause.IdText p := by
    intro made hmade
    split at hmade
    · cases hmade
    · obtain ⟨id, hread, hmade⟩ := bind_eq_ok.mp hmade
      cases hmade
      intro written hw
      exact Decode.string_satisfies ht (Decode.optional_eq_some (hread.trans (congrArg _ hw)))
  unfold field at h
  dsimp only at h
  split at h
  · exact hid h
  · exact hid h
  all_goals first
    | (obtain ⟨_, _, h⟩ := bind_eq_ok.mp h; cases h; exact hd)
    | (cases h; exact hd)

theorem WhereClause.decode_idText {t : Tree} {w : WhereClause} (ht : t.AllTexts p) (h : decode t = .ok w) :
    w.IdText p := by
  obtain ⟨draft, hdraft, h⟩ := bind_eq_ok.mp h
  cases h
  cases t with
  | map entries =>
    refine Outcome.foldlM_keeps (q := fun d : Draft => d.clause.IdText p)
      (fun e he d d' hd hd' => ?_) (fun _ h => by cases h) hdraft
    exact field_idText (Tree.allTexts_map.mp ht e he) hd hd'
  | _ => cases hdraft

structure WithClause.AllTexts (p : String → Prop) (w : WithClause) : Prop where
  context : w.context.AllTexts p
  queries : w.queries.AllTexts p

theorem WithClause.decode_allTexts {t : Tree} {w : WithClause} (ht : t.AllTexts p) (h : decode t = .ok w) :
    w.AllTexts p := by
  refine Decode.fieldsOrItems_keeps (fun key v s s' hpart hs hs' => ?_) ⟨.nil, .nil⟩ h
  have hv := ht.part hpart
  unfold field at hs'
  split at hs'
  · obtain ⟨entries, hentries, hs'⟩ := bind_eq_ok.mp hs'
    cases hs'
    exact ⟨Decode.table_allTexts hv hentries, hs.queries⟩
  · obtain ⟨entries, hentries, hs'⟩ := bind_eq_ok.mp hs'
    cases hs'
    exact ⟨hs.context, Decode.table_allTexts hv hentries⟩
  · cases hs'

/-- Every text of a query that names an identity or is part of a map satisfies `p`. -/
structure QuerySpec.AllTexts (p : String → Prop) (q : QuerySpec) : Prop where
  query : ∀ w, q.query = some w → w.IdText p
  «where» : ∀ w, q.where = some w → w.IdText p
  «with» : ∀ w, q.with = some w → w.AllTexts p
  context : q.context.AllTexts p

theorem QuerySpec.AllTexts.predicate? {q : QuerySpec} (h : q.AllTexts p) {w : WhereClause}
    (hw : q.predicate? = some w) : w.IdText p := by
  unfold QuerySpec.predicate? at hw
  cases hwhere : q.where with
  | none =>
    rw [hwhere] at hw
    exact h.query w hw
  | some clause =>
    rw [hwhere] at hw
    cases hw
    exact h.where _ hwhere

theorem QuerySpec.decode_allTexts {t : Tree} {q : QuerySpec} (ht : t.AllTexts p) (h : decode t = .ok q) :
    q.AllTexts p := by
  have hempty : ({} : QuerySpec).AllTexts p :=
    ⟨fun _ h => (by cases h), fun _ h => (by cases h), fun _ h => (by cases h), .nil⟩
  refine Decode.fieldsOrItems_keeps (fun key v s s' hpart hs hs' => ?_) hempty h
  have hv := ht.part hpart
  unfold field at hs'
  split at hs' <;> try
    obtain ⟨read, hread, hs'⟩ := bind_eq_ok.mp hs'
  all_goals cases hs'
  case h_3 =>
    exact ⟨fun w hw => WhereClause.decode_idText hv (Decode.optional_eq_some (hread.trans (congrArg _ hw))),
      hs.where, hs.with, hs.context⟩
  case h_4 =>
    exact ⟨hs.query, fun w hw => WhereClause.decode_idText hv (Decode.optional_eq_some (hread.trans (congrArg _ hw))),
      hs.with, hs.context⟩
  case h_7 =>
    exact ⟨hs.query, hs.where,
      fun w hw => WithClause.decode_allTexts hv (Decode.optional_eq_some (hread.trans (congrArg _ hw))), hs.context⟩
  case h_8 => exact ⟨hs.query, hs.where, hs.with, Decode.table_allTexts hv hread⟩
  all_goals exact ⟨hs.query, hs.where, hs.with, hs.context⟩

/-- Each query of an entry is read from the entry or from an item of it; null stands for the query that
selects everything. -/
theorem QueryEntry.spec_cases {name : String} {t : Tree} {entry : QueryEntry} (h : read name t = .ok entry)
    {q : QuerySpec} (hq : q ∈ entry.specs) :
    q = {} ∨ QuerySpec.decode t = .ok q ∨ ∃ item : Tree, item.IsPart t ∧ QuerySpec.decode item = .ok q := by
  unfold read at h
  dsimp only at h
  split at h
  · rename_i items
    refine .inr (.inr ?_)
    cases hspecs : items.mapM QuerySpec.decode with
    | error e =>
      rw [hspecs] at h
      cases h
    | ok specs =>
      rw [hspecs] at h
      cases h
      exact exists_ok_of_mapM hspecs q hq
  · cases hspec : QuerySpec.decode _ with
    | error e =>
      rw [hspec] at h
      cases h
    | ok spec =>
      rw [hspec] at h
      cases h
      rw [List.mem_singleton.mp hq]
      exact .inr (.inl rfl)
  · cases h
    exact .inl (List.mem_singleton.mp hq)
  · cases h

theorem QueryEntry.read_allTexts {name : String} {t : Tree} {entry : QueryEntry} (ht : t.AllTexts p)
    (h : read name t = .ok entry) : ∀ q ∈ entry.specs, q.AllTexts p := by
  intro q hq
  obtain rfl | hread | ⟨item, hitem, hread⟩ := spec_cases h hq
  · exact ⟨fun _ h => (by cases h), fun _ h => (by cases h), fun _ h => (by cases h), .nil⟩
  · exact QuerySpec.decode_allTexts ht hread
  · exact QuerySpec.decode_allTexts (ht.part hitem) hread

end Bitpress
