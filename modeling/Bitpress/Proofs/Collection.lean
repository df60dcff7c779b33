import Bitpress.Proofs.Identity
import Bitpress.Proofs.Outcome
import Bitpress.Proofs.Rename
import Bitpress.Query

/-!
Collections and the queries on them, when identities are renamed.

Elements are told apart by their identities and found by all else that they have.
So a collection finds the same elements under new identities, as long as these
are distinct and a query does not ask for one of the identities itself.
-/

namespace Bitpress

variable {α : Type} [Element α] {f : ElementId → ElementId} {h : α → α}

/-- A change of elements that renames their identities and leaves what queries ask for. -/
structure Element.Renames (f : ElementId → ElementId) (h : α → α) : Prop where
  info : ∀ a, Element.info (h a) = (Element.info a).rename f
  ownField? : ∀ a key, Element.ownField? (h a) key = Element.ownField? a key

theorem Bit.renames (f : ElementId → ElementId) : Element.Renames f (Bit.rename f) := ⟨fun _ => rfl, fun _ _ => rfl⟩

theorem Constant.renames (f : ElementId → ElementId) : Element.Renames f (Constant.rename f) :=
  ⟨fun _ => rfl, fun _ _ => rfl⟩

theorem Target.renames (f : ElementId → ElementId) : Element.Renames f (Target.rename f) :=
  ⟨fun _ => rfl, fun _ _ => rfl⟩

/-- No name of a query asks for the identity that a renaming changes. -/
def WhereClause.Fixed (f : ElementId → ElementId) (w : WhereClause) : Prop :=
  ∀ written id, w.id = some written → ElementId.read? (Text.trim written) = some id → f id = id

namespace Element.Renames

theorem id_eq (hr : Renames f h) (a : α) : Element.id (h a) = f (Element.id a) := by
  unfold Element.id
  rw [hr.info]
  rfl

theorem name?_eq (hr : Renames f h) (a : α) : name? (h a) = name? a := by
  unfold name?
  rw [hr.info]
  rfl

theorem tags_eq (hr : Renames f h) (a : α) : tags (h a) = tags a := by
  unfold tags
  rw [hr.info]
  rfl

theorem metadata_eq (hr : Renames f h) (a : α) : metadata (h a) = metadata a := by
  unfold metadata
  rw [hr.info]
  rfl

/-- Every element has an identity, whichever it is. -/
theorem hasField_eq (hr : Renames f h) (a : α) (key : String) : hasField (h a) key = hasField a key := by
  have hpresent : ∀ id : ElementId, Tree.isPresent (.str id.text) = true := fun id => by
    obtain ⟨c, cs, hlist, _⟩ := id.head_text
    refine bne_iff_ne.mpr fun he => ?_
    rw [he] at hlist
    cases hlist
  unfold hasField field?
  by_cases hid : key = "id"
  · rw [if_pos hid, if_pos hid, Option.any_some, Option.any_some, hpresent, hpresent]
  · rw [if_neg hid, if_neg hid, hr.name?_eq, hr.tags_eq, hr.metadata_eq, hr.ownField?]

end Element.Renames

namespace Collection

open Outcome

variable {c found : Collection α} {flt : Filter} {w : WhereClause}

theorem findById_mem {a : α} {id : ElementId} (h : c.findById id = .ok a) : a ∈ c.items ∧ Element.id a = id := by
  unfold findById at h
  split at h
  · rename_i hfind
    cases h
    exact ⟨List.mem_of_find?_eq_some hfind, by simpa using List.find?_some hfind⟩
  · cases h

/-- What a filter keeps stays in its order. -/
theorem filter_sublist (h : c.filter flt = .ok found) : found.items.Sublist c.items := by
  obtain ⟨pattern, _, hfilter⟩ := bind_eq_ok.mp h
  cases hfilter
  exact List.filter_sublist

theorem query_sublist {id : Option ElementId} (h : c.query id flt = .ok found) : found.items.Sublist c.items := by
  cases id with
  | none => exact filter_sublist h
  | some i =>
    obtain ⟨a, ha, hfilter⟩ := bind_eq_ok.mp h
    exact (filter_sublist hfilter).trans (List.singleton_sublist.mpr (findById_mem ha).1)

theorem whereClause_sublist (h : c.whereClause w = .ok found) : found.items.Sublist c.items := by
  obtain ⟨id, _, hrest⟩ := bind_eq_ok.mp h
  obtain ⟨base, hbase, hfilter⟩ := bind_eq_ok.mp hrest
  cases hfilter
  exact List.filter_sublist.trans (query_sublist hbase)

theorem mem_whereClause (h : c.whereClause w = .ok found) {a : α} (ha : a ∈ found.items) : a ∈ c.items :=
  (whereClause_sublist h).subset ha

variable (hf : Function.Injective f) (hr : Element.Renames f h)
include hf hr

theorem hasId_map (c : Collection α) (id : ElementId) : (c.map h).hasId (f id) = c.hasId id := by
  unfold hasId map
  rw [List.any_map]
  refine congrArg (List.any c.items) (funext fun a => ?_)
  rw [Function.comp_apply, hr.id_eq, Bool.eq_iff_iff, beq_iff_eq, beq_iff_eq]
  exact hf.eq_iff

theorem push_map (c : Collection α) (a : α) : Mirrors (map h) (c.push a) ((c.map h).push (h a)) := by
  unfold push
  rw [hr.id_eq, hasId_map hf hr]
  split
  · exact .error _ _
  · simp [Mirrors, map, Except.toOption]

theorem absorb_map (c : Collection α) (items : List α) :
    (c.map h).absorb (items.map h) = (c.absorb items).map h := by
  induction items generalizing c with
  | nil => rfl
  | cons a rest ih =>
    unfold absorb at ih ⊢
    rw [List.map_cons, List.foldl_cons, List.foldl_cons, ← ih, hr.id_eq, hasId_map hf hr]
    split
    · rfl
    · simp [map]

theorem findById_map (c : Collection α) (id : ElementId) :
    Mirrors h (c.findById id) ((c.map h).findById (f id)) := by
  unfold findById map
  have hsame : ((fun a : α => Element.id a == f id) ∘ h) = fun a => Element.id a == id := by
    refine funext fun a => ?_
    rw [Function.comp_apply, hr.id_eq, Bool.eq_iff_iff, beq_iff_eq, beq_iff_eq]
    exact hf.eq_iff
  rw [List.find?_map, hsame]
  cases c.items.find? fun a => Element.id a == id with
  | none => exact .error _ _
  | some a => exact .ok a

omit hf in
theorem satisfies_map (pattern : Option Pattern) (flt : Filter) (a : α) :
    satisfies pattern flt (h a) = satisfies pattern flt a := by
  unfold satisfies Element.matchesName Element.hasTags Element.matchesMetadata
  rw [hr.name?_eq, hr.tags_eq, hr.metadata_eq]

omit hf in
theorem filter_map (c : Collection α) (flt : Filter) : Mirrors (map h) (c.filter flt) ((c.map h).filter flt) := by
  refine (Mirrors.same (flt.name.mapM Filter.namePattern)).bind fun pattern _ => ?_
  have hsame : (satisfies pattern flt ∘ h) = satisfies pattern flt := funext (satisfies_map hr pattern flt)
  show some _ = some _
  unfold map
  dsimp only [id]
  rw [List.filter_map, hsame]

theorem query_map (c : Collection α) (id : Option ElementId) (flt : Filter) (hid : ∀ i, id = some i → f i = i) :
    Mirrors (map h) (c.query id flt) ((c.map h).query id flt) := by
  cases id with
  | none => exact filter_map hr c flt
  | some i =>
    have hfind := findById_map hf hr c i
    rw [hid i rfl] at hfind
    exact hfind.bind fun a _ => filter_map hr ⟨[a]⟩ flt

theorem whereClause_map (c : Collection α) {w : WhereClause} (hw : w.Fixed f) :
    Mirrors (map h) (c.whereClause w) ((c.map h).whereClause w) := by
  have hrest : ∀ id : Option ElementId, (∀ i, id = some i → f i = i) → Mirrors (map h)
      (do let base ← c.query id (.ofClause w); return ⟨base.items.filter (hasFields w.has w.missing)⟩)
      (do let base ← (c.map h).query id (.ofClause w); return ⟨base.items.filter (hasFields w.has w.missing)⟩) := by
    intro id hid
    refine (query_map hf hr c id _ hid).bind fun base _ => ?_
    have hsame : (hasFields w.has w.missing ∘ h) = hasFields (α := α) w.has w.missing := by
      refine funext fun a => ?_
      have hfield : Element.hasField (h a) = Element.hasField a := funext (hr.hasField_eq a)
      unfold hasFields
      rw [Function.comp_apply, hfield]
    show some _ = some _
    unfold map
    rw [List.filter_map, hsame]
  unfold whereClause
  cases hid : w.id with
  | none => exact hrest none fun i hi => (by cases hi)
  | some written =>
    have hfixed := fun id => hw written id hid
    cases hread : ElementId.read? (Text.trim written) with
    | none =>
      rw [Option.mapM_some, hread]
      exact .error (.elementNotFound written) (.elementNotFound written)
    | some id =>
      rw [Option.mapM_some, hread]
      refine hrest (some id) fun i hi => ?_
      cases hi
      exact hfixed id hread

end Collection

end Bitpress
