import Bitpress.Override
import Bitpress.Proofs.Outcome
import Bitpress.Proofs.Table

/-!
Places of a tree.

A place is looked up and changed one step after the other. A change at a place is
seen there (`Tree.lookup?_changeAt`) and along no path that leaves the way to it
(`Tree.lookup?_changeAt_aside`). An override is one such change
(`OverridePath.apply_eq`): the walk that checks it and the walk that carries it out
find the same node.
-/

namespace Bitpress

open Outcome

namespace Segment

/-- A segment as a path may have it: places count from one. -/
def Written : Segment → Prop
  | .key _ => True
  | .index n => 0 < n

instance : DecidablePred Written := fun s => by
  cases s
  · exact .isTrue trivial
  · exact Nat.decLt ..

def isKey : Segment → Bool
  | .key _ => true
  | .index _ => false

end Segment

namespace Tree

variable {t child node : Tree} {s s' : Segment} {path : List Segment} {change : Tree → Tree}

/-! ### One step -/

theorem step?_changeStep (h : t.step? s = some child) (change : Tree → Tree) :
    (t.changeStep s change).step? s = some (change child) := by
  cases t <;> cases s <;> try cases h
  case map.key entries k =>
    replace h : Table.valueAt? entries k = some child := h
    simp only [changeStep, h]
    exact Table.valueAt?_put_self ..
  case list.index items n =>
    replace h : items[n - 1]? = some child := h
    simp only [changeStep, step?, List.getElem?_modify_eq, h]
    rfl

/-- A step in another direction leads to what it led to. -/
theorem step?_changeStep_of_ne (h : s' ≠ s) (hs : s.Written) (hs' : s'.Written) (change : Tree → Tree) :
    (t.changeStep s change).step? s' = t.step? s' := by
  cases t <;> cases s <;> try rfl
  case map.key entries k =>
    unfold changeStep
    dsimp only
    split
    · cases s' with
      | key k' => exact Table.valueAt?_put_of_ne entries _ fun hk => h (congrArg _ hk)
      | index n' => rfl
    · rfl
  case list.index items n =>
    cases s' with
    | key k' => rfl
    | index n' =>
      have hn : n ≠ n' := fun hn => h (congrArg _ hn.symm)
      have hplace : n - 1 ≠ n' - 1 := by
        unfold Segment.Written at hs hs'
        omega
      exact List.getElem?_modify_ne change items hplace

/-- A change that makes nothing new of what stands there leaves the tree as it is. -/
theorem changeStep_eq_self (h : ∀ child, t.step? s = some child → change child = child) :
    t.changeStep s change = t := by
  cases t <;> cases s <;> try rfl
  case map.key entries k =>
    unfold changeStep
    dsimp only
    split
    · rename_i v hv
      rw [h v hv, Table.put_of_valueAt? hv]
    · rfl
  case list.index items n =>
    refine congrArg Tree.list (List.ext_getElem? fun i => ?_)
    by_cases hi : n - 1 = i
    · subst hi
      rw [List.getElem?_modify_eq]
      cases hv : items[n - 1]? with
      | none => rfl
      | some v => exact congrArg some (h v hv)
    · exact List.getElem?_modify_ne change items hi

/-- What a change makes of other trees does not matter. -/
theorem changeStep_const (h : t.step? s = some child) (change : Tree → Tree) :
    t.changeStep s change = t.changeStep s fun _ => change child := by
  cases t <;> cases s <;> try cases h
  case map.key entries k =>
    replace h : Table.valueAt? entries k = some child := h
    simp only [changeStep, h]
  case list.index items n =>
    replace h : items[n - 1]? = some child := h
    refine congrArg Tree.list (List.ext_getElem? fun i => ?_)
    by_cases hi : n - 1 = i
    · subst hi
      rw [List.getElem?_modify_eq, List.getElem?_modify_eq, h]
      rfl
    · exact (List.getElem?_modify_ne _ items hi).trans (List.getElem?_modify_ne _ items hi).symm

/-- The keys of a map stay, each in its place. -/
theorem keyList_changeStep (t : Tree) (s : Segment) (change : Tree → Tree) :
    (t.changeStep s change).entries.keyList = t.entries.keyList := by
  cases t <;> cases s <;> try rfl
  case map.key entries k =>
    unfold changeStep
    dsimp only
    split
    · rename_i v hv
      exact (Table.keyList_put ..).trans (if_pos (Table.mem_keyList_of_valueAt? hv))
    · rfl

/-! ### A path -/

theorem lookup?_cons (t : Tree) (s : Segment) (rest : List Segment) :
    t.lookup? (s :: rest) = (t.step? s).bind (·.lookup? rest) := rfl

theorem lookup?_append (t : Tree) (path below : List Segment) :
    t.lookup? (path ++ below) = (t.lookup? path).bind (·.lookup? below) := by
  induction path generalizing t with
  | nil => rfl
  | cons s rest ih =>
    rw [List.cons_append, lookup?_cons, lookup?_cons, Option.bind_assoc]
    exact Option.bind_congr fun child _ => ih child

/-- The tree with what stands at the end of a path changed. -/
def changeAt (t : Tree) (path : List Segment) (change : Tree → Tree) : Tree :=
  match path with
  | [] => change t
  | s :: rest => t.changeStep s fun child => child.changeAt rest change

theorem lookup?_changeAt (h : t.lookup? path = some node) (change : Tree → Tree) :
    (t.changeAt path change).lookup? path = some (change node) := by
  induction path generalizing t with
  | nil =>
    cases h
    rfl
  | cons s rest ih =>
    obtain ⟨child, hchild, hnode⟩ := Option.bind_eq_some_iff.mp h
    rw [changeAt, lookup?_cons, step?_changeStep hchild]
    exact ih hnode

/-- On the way to the change, each node is changed further down. -/
theorem lookup?_changeAt_above {above below : List Segment} (h : t.lookup? above = some node) (change : Tree → Tree) :
    (t.changeAt (above ++ below) change).lookup? above = some (node.changeAt below change) := by
  induction above generalizing t with
  | nil =>
    cases h
    rfl
  | cons s rest ih =>
    obtain ⟨child, hchild, hnode⟩ := Option.bind_eq_some_iff.mp h
    rw [List.cons_append, changeAt, lookup?_cons, step?_changeStep hchild]
    exact ih hnode

/-- A path that leaves the way to the change does not lead through it. -/
theorem lookup?_changeAt_aside {common rest rest' : List Segment} (h : s' ≠ s) (hs : s.Written) (hs' : s'.Written)
    (t : Tree) (change : Tree → Tree) :
    (t.changeAt (common ++ s :: rest) change).lookup? (common ++ s' :: rest') = t.lookup? (common ++ s' :: rest') := by
  induction common generalizing t with
  | nil =>
    rw [List.nil_append, List.nil_append, changeAt, lookup?_cons, lookup?_cons, step?_changeStep_of_ne h hs hs']
  | cons a common ih =>
    rw [List.cons_append, List.cons_append, changeAt, lookup?_cons, lookup?_cons]
    cases ha : t.step? a with
    | none =>
      have hsame : ∀ (u : Tree → Tree) v, t.step? a = some v → u v = v := fun u v hv => by
        rw [ha] at hv
        cases hv
      rw [changeStep_eq_self (hsame _), ha]
    | some child =>
      rw [step?_changeStep ha]
      exact ih child

theorem changeAt_eq_self (h : ∀ node, t.lookup? path = some node → change node = node) :
    t.changeAt path change = t := by
  induction path generalizing t with
  | nil => exact h t rfl
  | cons s rest ih =>
    refine changeStep_eq_self fun child hchild => ih fun node hnode => h node ?_
    rw [lookup?_cons, hchild]
    exact hnode

theorem keyList_changeAt_cons (t : Tree) (s : Segment) (rest : List Segment) (change : Tree → Tree) :
    (t.changeAt (s :: rest) change).entries.keyList = t.entries.keyList := keyList_changeStep ..

end Tree

/-! ### Checking and carrying out -/

namespace OverridePath

variable {p : OverridePath} {op : OverrideOp} {value t node : Tree} {path : List Segment} {last : Segment} {e : Error}

/-- The walk finds what stands at the end of the path. -/
theorem walk_eq_ok {passed : String} : p.walk passed t path = .ok node ↔ t.lookup? path = some node := by
  induction path generalizing passed t with
  | nil => exact ⟨fun h => congrArg some (Except.ok.inj h), fun h => congrArg Except.ok (Option.some.inj h)⟩
  | cons s rest ih =>
    unfold walk
    dsimp only
    rw [Tree.lookup?_cons]
    cases t.step? s with
    | none => exact ⟨nofun, nofun⟩
    | some child => exact ih

/-- A segment at which an operation on a node can end. -/
def Ends (op : OverrideOp) (node : Tree) : Segment → Prop
  | .key _ => ∃ entries, node = .map entries
  | .index n => ∃ items, node = .list items ∧ (op = .remove ∨ n ≤ items.length)

theorem checkLast_eq_ok : p.checkLast op node last = .ok () ↔ Ends op node last := by
  cases last with
  | key k =>
    cases node <;> simp [checkLast, Ends, Tree.isMap]
  | index n =>
    cases node with
    | list items =>
      simp only [checkLast, Ends, Tree.list.injEq, exists_eq_left', ne_eq]
      by_cases hop : op = .remove
      · simp [hop]
      · by_cases hn : items.length < n <;> simp [hop, hn]
        omega
    | _ => simp [checkLast, Ends]

theorem validate_eq (h : p.segments = path ++ [last]) (op : OverrideOp) (t : Tree) :
    p.validate op t = p.walk "" t path >>= fun node => p.checkLast op node last := by
  unfold validate
  rw [h, List.getLast?_concat, List.dropLast_concat]

/-- An operation passes the check if its path leads to a node where it can end. -/
theorem validate_eq_ok (h : p.segments = path ++ [last]) :
    p.validate op t = .ok () ↔ ∃ node, t.lookup? path = some node ∧ Ends op node last := by
  rw [validate_eq h, bind_eq_ok]
  exact exists_congr fun node => and_congr walk_eq_ok checkLast_eq_ok

/-- Carrying out an operation where the path leads to a node is a change of the node. -/
theorem carryOut_eq (h : t.lookup? path = some node) (last : Segment) :
    p.carryOut op value t (path ++ [last]) = (t.changeAt path fun node => operate op value node last, .ok ()) := by
  induction path generalizing t with
  | nil => rfl
  | cons s rest ih =>
    obtain ⟨child, hchild, hnode⟩ := Option.bind_eq_some_iff.mp h
    obtain ⟨next, more, hmore⟩ :=
      List.exists_cons_of_ne_nil (List.append_ne_nil_of_right_ne_nil rest (List.cons_ne_nil last []))
    have hbelow := ih hnode
    rw [hmore] at hbelow
    rw [List.cons_append, hmore, carryOut, hchild]
    dsimp only
    rw [hbelow, Tree.changeAt, Tree.changeStep_const hchild fun child => child.changeAt rest _]

/-- An operation that cannot be carried out leaves the tree as it was. -/
theorem carryOut_of_error (h : (p.carryOut op value t path).2 = .error e) : (p.carryOut op value t path).1 = t := by
  induction path generalizing t with
  | nil => rfl
  | cons s rest ih =>
    cases rest with
    | nil => cases h
    | cons next more =>
      unfold carryOut at h ⊢
      cases hchild : t.step? s with
      | none => rfl
      | some child =>
        rw [hchild] at h
        refine Tree.changeStep_eq_self fun other hother => ?_
        cases hchild.symm.trans hother
        exact ih h

theorem applyTo_of_error (h : (p.applyTo op value t).2 = .error e) : (p.applyTo op value t).1 = t := by
  unfold applyTo at h ⊢
  split
  · rename_i hvalid
    rw [hvalid] at h
    exact carryOut_of_error h
  · rfl

/-- What passes the check is carried out. -/
theorem applyTo_of_valid (h : p.segments = path ++ [last]) (hvalid : p.validate op t = .ok ()) (value : Tree) :
    p.applyTo op value t = (t.changeAt path fun node => operate op value node last, .ok ()) := by
  obtain ⟨node, hnode, _⟩ := (validate_eq_ok h).mp hvalid
  rw [applyTo, hvalid, h]
  exact carryOut_eq hnode last

/-- The walk that carries an operation out agrees with the walk that checks it. -/
theorem applyTo_snd (h : p.segments ≠ []) (op : OverrideOp) (value t : Tree) :
    (p.applyTo op value t).2 = p.validate op t := by
  obtain ⟨path, last, hsegments⟩ := List.eq_nil_or_concat p.segments |>.resolve_left h
  rw [List.concat_eq_append] at hsegments
  cases hvalid : p.validate op t with
  | error e => rw [applyTo, hvalid]
  | ok _ => rw [applyTo_of_valid hsegments hvalid]

theorem apply_of_nil (h : p.segments = []) (op : OverrideOp) (value t : Tree) :
    p.apply op value t = .error (p.fault "path is empty") := by
  unfold apply applyTo validate
  rw [h]
  rfl

/-- An operation is checked, and then it is one change of the tree. -/
theorem apply_eq (h : p.segments = path ++ [last]) (op : OverrideOp) (value t : Tree) :
    p.apply op value t = do
      p.validate op t
      return t.changeAt path fun node => operate op value node last := by
  unfold apply
  cases hvalid : p.validate op t with
  | error e => rw [applyTo, hvalid]; rfl
  | ok _ => rw [applyTo_of_valid h hvalid]; rfl

end OverridePath

end Bitpress
