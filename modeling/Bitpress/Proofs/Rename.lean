import Bitpress.Proofs.Layering
import Bitpress.Store

/-!
Renaming identities.

What a load makes out of files carries identities that mean nothing but that two
elements are not the same. `rename` changes them throughout; laying contexts over
one another does not look at them.
-/

namespace Bitpress

variable {α β : Type} (f g : ElementId → ElementId)

/-! ### Elements -/

def ElementInfo.rename (i : ElementInfo) : ElementInfo := { i with id := f i.id }

def Bit.rename (b : Bit) : Bit := { b with info := b.info.rename f }

def Constant.rename (c : Constant) : Constant := { c with info := c.info.rename f }

/-! ### Context values -/

namespace ContextValue

mutual

def rename : ContextValue → ContextValue
  | .null => .null
  | .bool b => .bool b
  | .num n => .num n
  | .str s => .str s
  | .list items => .list (renameItems items)
  | .map entries => .map (renameEntries entries)
  | .block bit context metadata => .block (bit.rename f) (renameEntries context) metadata
  | .constant c => .constant (c.rename f)

def renameItems : List ContextValue → List ContextValue
  | [] => []
  | v :: rest => rename v :: renameItems rest

def renameEntries : List (String × ContextValue) → List (String × ContextValue)
  | [] => []
  | (k, v) :: rest => (k, rename v) :: renameEntries rest

end

@[simp] theorem renameItems_eq (items : List ContextValue) : renameItems f items = items.map (rename f) := by
  induction items with
  | nil => rfl
  | cons v rest ih => rw [renameItems, ih, List.map_cons]

@[simp] theorem renameEntries_eq (entries : List (String × ContextValue)) :
    renameEntries f entries = Table.mapValues (rename f) entries := by
  induction entries with
  | nil => rfl
  | cons e rest ih => rw [renameEntries, ih]; rfl

mutual

theorem rename_rename (v : ContextValue) : (v.rename f).rename g = v.rename (g ∘ f) := by
  cases v with
  | list items => exact congrArg list (renameItems_renameItems items)
  | map entries => exact congrArg map (renameEntries_renameEntries entries)
  | block bit context metadata =>
    exact congrArg (block (bit.rename (g ∘ f)) · metadata) (renameEntries_renameEntries context)
  | _ => rfl

theorem renameItems_renameItems (items : List ContextValue) :
    renameItems g (renameItems f items) = renameItems (g ∘ f) items := by
  cases items with
  | nil => rfl
  | cons v rest => rw [renameItems, renameItems, renameItems, rename_rename v, renameItems_renameItems rest]

theorem renameEntries_renameEntries (entries : List (String × ContextValue)) :
    renameEntries g (renameEntries f entries) = renameEntries (g ∘ f) entries := by
  cases entries with
  | nil => rfl
  | cons e rest =>
    obtain ⟨k, v⟩ := e
    rw [renameEntries, renameEntries, renameEntries, rename_rename v, renameEntries_renameEntries rest]

end

mutual

/-- Plain data has no identities. -/
theorem rename_ofTree (t : Tree) : (ofTree t).rename f = ofTree t := by
  cases t with
  | list items => exact congrArg list (renameItems_ofItems items)
  | map entries => exact congrArg map (renameEntries_ofEntries entries)
  | _ => rfl

theorem renameItems_ofItems (items : List Tree) : renameItems f (ofItems items) = ofItems items := by
  cases items with
  | nil => rfl
  | cons t rest => rw [ofItems, renameItems, rename_ofTree t, renameItems_ofItems rest]

theorem renameEntries_ofEntries (entries : List (String × Tree)) :
    renameEntries f (ofEntries entries) = ofEntries entries := by
  cases entries with
  | nil => rfl
  | cons e rest =>
    obtain ⟨k, t⟩ := e
    rw [ofEntries, renameEntries, rename_ofTree t, renameEntries_ofEntries rest]

end

mutual

/-- A fingerprint says what a value holds, and not which elements it has that from. -/
theorem fingerprint_rename (v : ContextValue) : (v.rename f).fingerprint = v.fingerprint := by
  cases v with
  | list items => exact congrArg (fun s => "[" ++ s ++ "]") (fingerprintItems_rename items)
  | map entries => exact congrArg (fun s => "\x7b" ++ s ++ "\x7d") (fingerprintEntries_rename entries)
  | block bit context metadata =>
    exact congrArg (fun s => "block(" ++ sourceText bit.source ++ "|\x7b" ++ s ++ "\x7d)")
      (fingerprintEntries_rename context)
  | _ => rfl

theorem fingerprintItems_rename (items : List ContextValue) :
    fingerprintItems (renameItems f items) = fingerprintItems items := by
  cases items with
  | nil => rfl
  | cons v rest =>
    rw [renameItems, fingerprintItems, fingerprintItems, fingerprint_rename v, fingerprintItems_rename rest]

theorem fingerprintEntries_rename (entries : List (String × ContextValue)) :
    fingerprintEntries (renameEntries f entries) = fingerprintEntries entries := by
  cases entries with
  | nil => rfl
  | cons e rest =>
    obtain ⟨k, v⟩ := e
    rw [renameEntries, fingerprintEntries, fingerprintEntries, fingerprint_rename v,
      fingerprintEntries_rename rest]

end

mutual

theorem rename_overlay (base above : ContextValue) :
    (overlay base above).rename f = overlay (base.rename f) (above.rename f) := by
  cases above with
  | map entries =>
    cases base with
    | map there =>
      rw [overlay_map]
      show map (renameEntries f _) = overlay (map (renameEntries f there)) (map (renameEntries f entries))
      rw [overlay_map, renameEntries_eq, renameEntries_eq, renameEntries_eq,
        Table.mapValues_mergeWith (rename_overlay_entries entries)]
    | _ => rfl
  | _ => rfl

theorem rename_overlay_entries (entries : List (String × ContextValue)) :
    ∀ e ∈ entries, ∀ v, (overlay v e.2).rename f = overlay (v.rename f) (e.2.rename f) := by
  cases entries with
  | nil => exact fun _ he => by cases he
  | cons first rest =>
    obtain ⟨key, value⟩ := first
    exact List.forall_mem_cons.mpr ⟨fun v => rename_overlay v value, rename_overlay_entries rest⟩

end

end ContextValue

namespace Context

def rename (c : Context) : Context := ContextValue.renameEntries f c

theorem rename_rename (c : Context) : (c.rename f).rename g = c.rename (g ∘ f) :=
  ContextValue.renameEntries_renameEntries f g c

theorem rename_ofTable (t : Table Tree) : (ofTable t).rename f = ofTable t :=
  ContextValue.renameEntries_ofEntries f t

theorem rename_merge (base above : Context) :
    (base.merge above).rename f = (base.rename f).merge (above.rename f) :=
  ContextValue.map.inj (ContextValue.rename_overlay f (.map base) (.map above))

theorem rename_put (c : Context) (key : String) (v : ContextValue) :
    Context.rename f (Table.put c key v) = Table.put (c.rename f) key (v.rename f) := by
  unfold rename
  rw [ContextValue.renameEntries_eq, ContextValue.renameEntries_eq, Table.mapValues_put]

end Context

/-! ### What a registry holds -/

def Block.rename (b : Block) : Block := { b with bit := b.bit.rename f, context := b.context.rename f }

theorem Block.toValue_rename (b : Block) : (b.rename f).toValue = b.toValue.rename f := rfl

def Target.rename (t : Target) : Target := { t with info := t.info.rename f, context := t.context.rename f }

/-- A collection with its elements changed. -/
def Collection.map (h : α → β) (c : Collection α) : Collection β := ⟨c.items.map h⟩

def Contents.rename (c : Contents) : Contents :=
  { c with
    bits := c.bits.map (Bit.rename f)
    constants := c.constants.map (Constant.rename f)
    targets := c.targets.map (Target.rename f) }

theorem Contents.rename_rename (c : Contents) : (c.rename f).rename g = c.rename (g ∘ f) := by
  have htargets : ∀ t : Target, (t.rename f).rename g = t.rename (g ∘ f) := fun t => by
    simp [Target.rename, Context.rename_rename, ElementInfo.rename]
  simp only [Contents.rename, Collection.map, List.map_map]
  congr 2
  exact List.map_congr_left fun t _ => htargets t

end Bitpress
