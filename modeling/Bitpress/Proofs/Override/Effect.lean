import Bitpress.Proofs.Override

/-!
What an override does, and what it leaves alone.

An operation at a path that can be written succeeds where the check lets it, and
fails with the tree as it was where it does not. What it leaves is said by
`OverridePath.Effect`: what the path leads to, what every other path leads to, and
how the keys on the way stand.
-/

namespace Bitpress

open Outcome

namespace OverridePath

variable {p : OverridePath} {op : OverrideOp} {value t node : Tree} {path above : List Segment} {last : Segment}

/-! ### Written paths -/

theorem places_written {cs : List Char} {segments : List Segment} (h : places cs = .ok segments) :
    ∀ s ∈ segments, s.Written := by
  fun_induction places cs generalizing segments with
  | case1 =>
    cases h
    exact List.forall_mem_nil _
  | case2 | case3 | case4 | case6 => cases h
  | case5 inner written rest _ n hzero _ ih =>
    obtain ⟨more, hmore, rfl⟩ := map_eq_ok.mp h
    exact List.forall_mem_cons.mpr ⟨Nat.pos_of_ne_zero hzero, ih hmore⟩

/-- A part of a path is a key and places. -/
theorem part_written {cs : List Char} {segments : List Segment} (h : part cs = .ok segments) :
    segments ≠ [] ∧ ∀ s ∈ segments, s.Written := by
  unfold part at h
  dsimp only at h
  split at h
  · cases h
  · split at h
    · cases h
    · obtain ⟨more, hmore, rfl⟩ := map_eq_ok.mp h
      exact ⟨List.cons_ne_nil _ _, List.forall_mem_cons.mpr ⟨trivial, places_written hmore⟩⟩

/-- A path with segments that all can be written, of which there is at least one. -/
structure Written (p : OverridePath) : Prop where
  ne_nil : p.segments ≠ []
  written : ∀ s ∈ p.segments, s.Written

theorem written_of_parse {raw : String} (h : parse raw = .ok p) : p.Written := by
  unfold parse segmentsOf at h
  split at h
  · rename_i segments hsegments
    cases h
    split at hsegments
    · cases hsegments
    · obtain ⟨parts, hparts, rfl⟩ := map_eq_ok.mp hsegments
      have hwritten : ∀ segments ∈ parts, segments ≠ [] ∧ ∀ s ∈ segments, s.Written := fun segments hmem =>
        have ⟨_, _, hpart⟩ := exists_ok_of_mapM hparts segments hmem
        part_written hpart
      obtain ⟨first, hfirst⟩ : ∃ first, first ∈ parts := by
        obtain ⟨cs, rest, hsplit⟩ := List.exists_cons_of_ne_nil (Text.splitChars_ne_nil '.' raw.toList)
        rw [hsplit, List.mapM_cons] at hparts
        obtain ⟨first, _, hparts⟩ := bind_eq_ok.mp hparts
        obtain ⟨more, _, hparts⟩ := bind_eq_ok.mp hparts
        cases hparts
        exact ⟨first, List.mem_cons_self ..⟩
      refine ⟨fun hnil => (hwritten first hfirst).1 (List.flatten_eq_nil_iff.mp hnil first hfirst), fun s hs => ?_⟩
      obtain ⟨segments, hmem, hs⟩ := List.mem_flatten.mp hs
      exact (hwritten segments hmem).2 s hs
  · cases h

theorem Written.withinSpec (h : p.Written) : p.withinSpec.Written := by
  unfold OverridePath.withinSpec
  split
  · split
    · exact h
    · exact ⟨List.cons_ne_nil _ _, List.forall_mem_cons.mpr ⟨trivial, h.written⟩⟩
  · exact ⟨List.cons_ne_nil _ _, List.forall_mem_cons.mpr ⟨trivial, h.written⟩⟩

/-! ### One node -/

/-- What an operation other than taking away has to find at a place of a list. -/
theorem Ends.place {n : Nat} (h : Ends op node (.index n)) (hop : op ≠ .remove) (hn : 0 < n) :
    ∃ items there, node = .list items ∧ items[n - 1]? = some there := by
  obtain ⟨items, rfl, hbound⟩ := h
  have hplace : n - 1 < items.length := by
    have := hbound.resolve_left hop
    omega
  exact ⟨items, items[n - 1], rfl, List.getElem?_eq_getElem hplace⟩

/-- Merging leaves something under every key. -/
theorem merge_some (part : Option Tree) (value : Tree) :
    ∃ made, part.merge (Tree.merge .indexWise) (some value) = some made := by
  cases part with
  | none => exact ⟨value, rfl⟩
  | some there => exact ⟨_, rfl⟩

theorem step?_operate_set (h : Ends .set node last) (hlast : last.Written) :
    (operate .set value node last).step? last = some value := by
  cases last with
  | key k =>
    obtain ⟨entries, rfl⟩ := h
    exact Table.valueAt?_put_self entries k value
  | index n =>
    obtain ⟨items, there, rfl, hthere⟩ := h.place OverrideOp.noConfusion hlast
    exact (List.getElem?_modify_eq ..).trans (by rw [hthere]; rfl)

theorem step?_operate_merge (h : Ends .merge node last) (hlast : last.Written) :
    (operate .merge value node last).step? last = (node.step? last).merge (Tree.merge .indexWise) (some value) := by
  cases last with
  | key k =>
    obtain ⟨entries, rfl⟩ := h
    obtain ⟨made, hmade⟩ := merge_some (Table.valueAt? entries k) value
    rw [operate_key, changePart, Tree.step?, hmade]
    exact (Table.valueAt?_put_self entries k made).trans hmade.symm
  | index n =>
    obtain ⟨items, there, rfl, hthere⟩ := h.place OverrideOp.noConfusion hlast
    show (items.modify (n - 1) _)[n - 1]? = (items[n - 1]?).merge _ _
    rw [List.getElem?_modify_eq, hthere]
    rfl

/-- Taking away what is not there leaves the node as it is. -/
theorem operate_remove_absent (h : node.step? last = none) : operate .remove value node last = node := by
  cases last <;> cases node <;> try rfl
  case key.map k entries => exact congrArg Tree.map (Table.without_of_not_mem (Table.valueAt?_eq_none.mp h))
  case index.list n items => exact congrArg Tree.list (List.eraseIdx_of_length_le (List.getElem?_eq_none_iff.mp h))

/-- An operation is not seen in another direction; only an element that is taken out of a list moves others. -/
theorem step?_operate_of_ne {s : Segment} (h : s ≠ last) (hlast : last.Written) (hs : s.Written)
    (hremove : op = .remove → last.isKey ∨ s.isKey) : (operate op value node last).step? s = node.step? s := by
  cases last <;> cases node <;> try (cases op <;> rfl)
  case key.map k entries =>
    rw [operate_key]
    cases s with
    | index n => rfl
    | key k' =>
      exact Table.valueAt?_assign_of_ne entries _ fun hk => h (congrArg _ hk)
  case index.list n items =>
    cases s with
    | key k => cases op <;> rfl
    | index n' =>
      have hn : n - 1 ≠ n' - 1 := by
        have hne : n' ≠ n := fun hn => h (congrArg _ hn)
        unfold Segment.Written at hlast hs
        omega
      cases op with
      | set | merge => exact List.getElem?_modify_ne _ items hn
      | remove => exact absurd (hremove rfl) (by simp [Segment.isKey])

/-- The keys that stay stand as they stood, and a new one comes last. -/
theorem keyList_operate (op : OverrideOp) (value node : Tree) (last : Segment) :
    (op ≠ .remove → node.entries.keyList <+: (operate op value node last).entries.keyList) ∧
      (op = .remove → (operate op value node last).entries.keyList.Sublist node.entries.keyList) := by
  cases last <;> cases node <;> try (cases op <;> exact ⟨fun _ => List.prefix_rfl, fun _ => .refl _⟩)
  case key.map k entries =>
    rw [operate_key]
    cases op with
    | set => exact ⟨fun _ => Table.keyList_prefix_put entries k value, OverrideOp.noConfusion⟩
    | merge =>
      obtain ⟨made, hmade⟩ := merge_some (Table.valueAt? entries k) value
      rw [changePart, hmade]
      exact ⟨fun _ => Table.keyList_prefix_put entries k made, OverrideOp.noConfusion⟩
    | remove => exact ⟨fun hop => absurd rfl hop, fun _ => Table.keyList_without_sublist⟩

/-! ### The whole tree -/

/-- A path that leaves another one; where an element is taken out of a list, the elements of that list are
not aside of it. -/
def Aside (op : OverrideOp) (path other : List Segment) : Prop :=
  ∃ common s rest s' rest', path = common ++ s :: rest ∧ other = common ++ s' :: rest' ∧ s' ≠ s ∧ s'.Written ∧
    (op = .remove → rest = [] → s.isKey ∨ s'.isKey)

/-- What an operation at a path makes of a tree. -/
structure Effect (op : OverrideOp) (value : Tree) (path : List Segment) (t made : Tree) : Prop where
  /-- Setting: the path leads to the value. -/
  set : op = .set → made.lookup? path = some value
  /-- Merging: the value is merged into what was there, or is there alone. -/
  merge : op = .merge → made.lookup? path = (t.lookup? path).merge (Tree.merge .indexWise) (some value)
  /-- Removing a key: it is gone, and the map keeps its other entries in their order. -/
  remove_key : ∀ above k, op = .remove → path = above ++ [.key k] → made.lookup? path = none ∧
    ∃ entries, t.lookup? above = some (.map entries) ∧
      made.lookup? above = some (.map (entries.filter fun e => e.1 != k))
  /-- Removing a place: the list keeps its other elements in their order. -/
  remove_index : ∀ above n, op = .remove → path = above ++ [.index n] → ∃ items, t.lookup? above = some (.list items) ∧
    made.lookup? above = some (.list (items.eraseIdx (n - 1)))
  absent : op = .remove → t.lookup? path = none → made = t
  aside : ∀ other, Aside op path other → made.lookup? other = t.lookup? other
  /-- On the way, the keys that stay stand as they stood, and a new one comes last. -/
  order : ∀ above below node, path = above ++ below → below ≠ [] → t.lookup? above = some node →
    ∃ node', made.lookup? above = some node' ∧
      (op ≠ .remove → node.entries.keyList <+: node'.entries.keyList) ∧
      (op = .remove → node'.entries.keyList.Sublist node.entries.keyList)

theorem lookup?_concat (h : t.lookup? path = some node) (last : Segment) :
    t.lookup? (path ++ [last]) = node.step? last := by
  rw [Tree.lookup?_append, h]
  show (node.step? last).bind some = _
  cases node.step? last <;> rfl

/-- What is aside of the path is not changed. -/
theorem lookup?_changeAt_operate_aside (hnode : t.lookup? path = some node)
    (hwritten : ∀ s ∈ path ++ [last], s.Written) (value : Tree) {other : List Segment}
    (haside : Aside op (path ++ [last]) other) :
    (t.changeAt path fun node => operate op value node last).lookup? other = t.lookup? other := by
  obtain ⟨common, s, rest, s', rest', hpath, rfl, hne, hs', hremove⟩ := haside
  rcases List.eq_nil_or_concat rest with rfl | ⟨between, end', rfl⟩
  · obtain ⟨rfl, hs⟩ := List.append_inj' hpath rfl
    cases hs
    have hlast : last.Written := hwritten last (List.mem_append_right _ (List.mem_singleton_self _))
    rw [Tree.lookup?_append, Tree.lookup?_append, Tree.lookup?_changeAt hnode, hnode]
    show (Tree.step? _ s').bind _ = (node.step? s').bind _
    rw [step?_operate_of_ne hne hlast hs' fun hop => hremove hop rfl]
  · rw [List.concat_eq_append, ← List.cons_append, ← List.append_assoc] at hpath
    obtain ⟨rfl, _⟩ := List.append_inj' hpath rfl
    have hs : s.Written := hwritten s (by simp)
    exact Tree.lookup?_changeAt_aside hne hs hs' t _

theorem effect_changeAt (hnode : t.lookup? path = some node) (hends : Ends op node last)
    (hwritten : ∀ s ∈ path ++ [last], s.Written) (hkeyed : node.Keyed) (value : Tree) :
    Effect op value (path ++ [last]) t (t.changeAt path fun node => operate op value node last) := by
  have hlast : last.Written := hwritten last (List.mem_append_right _ (List.mem_singleton_self _))
  have hmade : (t.changeAt path fun node => operate op value node last).lookup? path =
      some (operate op value node last) := Tree.lookup?_changeAt hnode _
  refine { set := ?_, merge := ?_, remove_key := ?_, remove_index := ?_, absent := ?_, aside := ?_, order := ?_ }
  · rintro rfl
    rw [lookup?_concat hmade, step?_operate_set hends hlast]
  · rintro rfl
    rw [lookup?_concat hmade, step?_operate_merge hends hlast, lookup?_concat hnode]
  · rintro above k rfl hpath
    obtain ⟨rfl, hk⟩ := List.append_inj' hpath rfl
    cases hk
    obtain ⟨entries, rfl⟩ := hends
    have hdistinct := Tree.keyed_map.mp hkeyed
    refine ⟨?_, entries, hnode, hmade.trans ?_⟩
    · rw [lookup?_concat hmade]
      exact (Table.valueAt?_without hdistinct k k).trans (if_pos rfl)
    · rw [operate, Table.without_eq_filter hdistinct]
  · rintro above n rfl hpath
    obtain ⟨rfl, hn⟩ := List.append_inj' hpath rfl
    cases hn
    obtain ⟨items, rfl, _⟩ := hends
    exact ⟨items, hnode, hmade⟩
  · rintro rfl habsent
    refine Tree.changeAt_eq_self fun other hother => ?_
    cases hnode.symm.trans hother
    exact operate_remove_absent ((lookup?_concat hnode last).symm.trans habsent)
  · exact fun other haside => lookup?_changeAt_operate_aside hnode hwritten value haside
  · intro above below other hpath hbelow hother
    obtain ⟨between, end', rfl⟩ := (List.eq_nil_or_concat below).resolve_left hbelow
    rw [List.concat_eq_append, ← List.append_assoc] at hpath
    obtain ⟨rfl, _⟩ := List.append_inj' hpath rfl
    refine ⟨_, Tree.lookup?_changeAt_above hother _, ?_⟩
    cases between with
    | nil => exact keyList_operate op value other last
    | cons s rest =>
      rw [Tree.keyList_changeAt_cons]
      exact ⟨fun _ => List.prefix_rfl, fun _ => .refl _⟩

/-- An operation at a path that can be written is carried out where the check lets it, and is not felt
elsewhere; where the check does not, the tree is left as it was. No key stands twice in the map that the
operation is carried out on, as in every map that is read. -/
theorem applyTo_effect {raw : String} {q : OverridePath} (hparse : parse raw = .ok p) (hq : q = p ∨ q = p.withinSpec)
    (op : OverrideOp) (value : Tree) (hkeyed : ∀ node, t.lookup? q.segments.dropLast = some node → node.Keyed) :
    (q.applyTo op value t).2 = q.validate op t ∧
      (∀ e, q.validate op t = .error e → (q.applyTo op value t).1 = t) ∧
      (q.validate op t = .ok () → Effect op value q.segments t (q.applyTo op value t).1) := by
  have hwritten : q.Written := by
    rcases hq with rfl | rfl
    · exact written_of_parse hparse
    · exact (written_of_parse hparse).withinSpec
  have hagree : (q.applyTo op value t).2 = q.validate op t := applyTo_snd hwritten.ne_nil op value t
  refine ⟨hagree, fun e he => applyTo_of_error (hagree.trans he), fun hvalid => ?_⟩
  obtain ⟨path, last, hsegments⟩ := (List.eq_nil_or_concat q.segments).resolve_left hwritten.ne_nil
  rw [List.concat_eq_append] at hsegments
  obtain ⟨node, hnode, hends⟩ := (validate_eq_ok hsegments).mp hvalid
  rw [hsegments, List.dropLast_concat] at hkeyed
  rw [applyTo_of_valid hsegments hvalid, hsegments]
  exact effect_changeAt hnode hends (hsegments ▸ hwritten.written) (hkeyed node hnode) value

/-- A spec with three blocks. -/
def threeBlocks : Tree :=
  .map [("queries", .map [("blocks", .list [.str "q1", .str "q2", .str "q3"]), ("all", .null)]), ("dest", .str "out")]

theorem applyTo_effect_of_remove : ∃ p, parse "blocks[2]" = .ok p ∧ p.withinSpec.validate .remove threeBlocks = .ok () ∧
    Effect .remove .null p.withinSpec.segments threeBlocks (p.withinSpec.applyTo .remove .null threeBlocks).1 := by
  have hparse : parse "blocks[2]" = .ok ⟨"blocks[2]", [.key "blocks", .index 2]⟩ :=
    Outcome.toOption_eq_some.mp (by decide +kernel)
  have hvalid : (OverridePath.withinSpec ⟨"blocks[2]", [.key "blocks", .index 2]⟩).validate .remove threeBlocks =
      .ok () := rfl
  refine ⟨_, hparse, hvalid, (applyTo_effect hparse (.inr rfl) .remove .null ?_).2.2 hvalid⟩
  intro node hnode entries hmap
  cases hnode
  cases hmap

end OverridePath

/-! ### Overrides one after the other -/

namespace OverrideDecl

variable {overrides : List OverrideDecl} {spec left made : Tree} {e : Error}

/-- In place, an override leaves what it makes of the spec, or the spec as it was. -/
theorem applyTo_eq (o : OverrideDecl) (spec : Tree) :
    o.applyTo spec = match o.apply spec with
      | .ok made => (made, .ok ())
      | .error e => (spec, .error e) := by
  unfold applyTo OverrideDecl.apply
  cases OverridePath.parse o.path with
  | error e => rfl
  | ok path =>
    cases OverrideOp.ofDecl o with
    | error e => rfl
    | ok op =>
      show path.withinSpec.applyTo op o.value spec = match path.withinSpec.apply op o.value spec with
        | .ok made => (made, .ok ())
        | .error e => (spec, .error e)
      unfold OverridePath.apply
      rcases hleft : path.withinSpec.applyTo op o.value spec with ⟨left, outcome⟩
      cases outcome with
      | ok _ => rfl
      | error e =>
        have hsame : (path.withinSpec.applyTo op o.value spec).1 = spec :=
          OverridePath.applyTo_of_error (congrArg Prod.snd hleft)
        rw [hleft] at hsame
        exact congrArg (·, Except.error e) hsame

/-- In place, overrides that can all be carried out make what they make otherwise. -/
theorem applyEach_eq_none : applyEach spec overrides = (made, none) ↔ applyAll overrides spec = .ok made := by
  induction overrides generalizing spec with
  | nil => exact ⟨fun h => by cases h; rfl, fun h => by cases h; rfl⟩
  | cons o rest ih =>
    show applyEach spec (o :: rest) = _ ↔ (o.apply spec >>= applyAll rest) = _
    unfold applyEach
    rw [applyTo_eq]
    cases o.apply spec with
    | ok changed => exact ih
    | error e => exact ⟨nofun, nofun⟩

/-- The override that fails leaves the spec as those before it have made it. -/
theorem exists_of_applyEach (h : applyEach spec overrides = (left, some e)) :
    ∃ before o after, overrides = before ++ o :: after ∧ applyAll before spec = .ok left ∧ o.apply left = .error e := by
  induction overrides generalizing spec with
  | nil => cases h
  | cons o rest ih =>
    unfold applyEach at h
    rw [applyTo_eq] at h
    cases ho : o.apply spec with
    | error reason =>
      rw [ho] at h
      cases h
      exact ⟨[], o, rest, rfl, rfl, ho⟩
    | ok changed =>
      rw [ho] at h
      obtain ⟨before, o', after, rfl, hbefore, hfails⟩ := ih h
      refine ⟨o :: before, o', after, rfl, ?_, hfails⟩
      show (o.apply spec >>= applyAll before) = _
      rw [ho]
      exact hbefore

end OverrideDecl

end Bitpress
