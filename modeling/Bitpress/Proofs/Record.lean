import Bitpress.Decode
import Bitpress.Proofs.Outcome
import Bitpress.Proofs.Table

/-!
Records that are written and read again.

A decoder returns what it gave if it reads the value's encoding as the same value
(`Returns`). For a record this is shown field by field: the fields of the encoding
lead from the empty record to the given one (`Fills`). A field that is left out
leaves the default, which is the value that leaves it out; the fields that nothing
else reads are kept as metadata, beside the named ones (`Beside`).
-/

namespace Bitpress

/-- A tree is an item of a list or a value of a map. -/
def Tree.IsPart (v : Tree) : Tree → Prop
  | .list items => v ∈ items
  | .map entries => ∃ key, (key, v) ∈ entries
  | _ => False

namespace Decode

open Outcome

variable {σ α : Type}

/-- A value that a decoder can give. -/
def Read (read : Tree → Decoded α) (a : α) : Prop := ∃ t, read t = .ok a

/-- Whatever the decoder gives, it gives again for the encoding of that. -/
def Returns (read : Tree → Decoded α) (write : α → Tree) : Prop := ∀ a, Read read a → read (write a) = .ok a

/-! ### Values -/

section Values
variable {read : Tree → Decoded α} {write : α → Tree} {t : Tree}

theorem string_write (s : String) : string (.str s) = .ok s := rfl

theorem string_some {x : Option String} : ∀ s ∈ x, string (.str s) = .ok s ∧ Tree.str s ≠ .null :=
  fun _ _ => ⟨rfl, fun h => by cases h⟩

theorem string_each {items : List String} : ∀ s ∈ items, string (.str s) = .ok s := fun _ _ => rfl

theorem scalarText_write (s : String) : scalarText (.str s) = .ok s := rfl

theorem bounds_of_wholeBetween {low high n : Int} {expected : String} (h : wholeBetween low high expected t = .ok n) :
    low ≤ n ∧ n ≤ high := by
  unfold wholeBetween at h
  split at h
  · split at h
    · rename_i hbounds
      cases h
      exact hbounds
    · cases h
  · cases h

theorem wholeBetween_write {low high n : Int} (expected : String) (h : low ≤ n ∧ n ≤ high) :
    wholeBetween low high expected (.int n) = .ok n := if_pos h

theorem signed_returns : Returns signed .int := fun _ ⟨_, h⟩ => wholeBetween_write "i64" (bounds_of_wholeBetween h)

theorem natural_returns (expected : String) :
    Returns (fun t => (wholeBetween 0 Number.greatestInt expected t).map Int.toNat) .nat := by
  rintro n ⟨t, h⟩
  cases hread : wholeBetween 0 Number.greatestInt expected t with
  | error e =>
    simp only [hread] at h
    cases h
  | ok i =>
    simp only [hread] at h
    cases h
    have hbounds := bounds_of_wholeBetween hread
    have hnat : Tree.nat i.toNat = .int i := congrArg Tree.int (Int.toNat_of_nonneg hbounds.1)
    simp only [hnat, wholeBetween_write expected hbounds]
    rfl

theorem count_returns : Returns count .nat := natural_returns "usize"

theorem unsigned_returns : Returns unsigned .nat := natural_returns "u64"

theorem optional_eq_some {a : α}
    (h : optional read t = .ok (some a)) : read t = .ok a := by
  unfold optional at h
  split at h
  · cases h
  · cases hread : read t with
    | error e =>
      rw [hread] at h
      cases h
    | ok b =>
      rw [hread] at h
      cases h
      rfl

theorem count_some {x : Option Nat} (h : ∀ n ∈ x, Read count n) : ∀ n ∈ x, count (.nat n) = .ok n ∧ Tree.nat n ≠ .null :=
  fun n hn => ⟨count_returns n (h n hn), fun h => by cases h⟩

theorem unsigned_some {x : Option Nat} (h : ∀ n ∈ x, Read unsigned n) :
    ∀ n ∈ x, unsigned (.nat n) = .ok n ∧ Tree.nat n ≠ .null :=
  fun n hn => ⟨unsigned_returns n (h n hn), fun h => by cases h⟩

theorem read_of_optional {x : Option α} (h : optional read t = .ok x) : ∀ a ∈ x, Read read a := fun _ ha =>
  ⟨t, optional_eq_some (Option.mem_def.mp ha ▸ h)⟩

theorem optional_write {a : α} (h : read (write a) = .ok a) (hnull : write a ≠ .null) :
    optional read (write a) = .ok (some a) := by
  unfold optional
  split
  · exact absurd ‹write a = .null› hnull
  · rw [h]
    rfl

theorem read_of_list {items : List α} (h : list read t = .ok items) : ∀ a ∈ items, Read read a := by
  cases t with
  | list trees =>
    intro a ha
    obtain ⟨tree, _, hread⟩ := exists_ok_of_mapM h a ha
    exact ⟨tree, hread⟩
  | _ => cases h

theorem list_write {items : List α} (h : ∀ a ∈ items, read (write a) = .ok a) :
    list read (.list (items.map write)) = .ok items := mapM_map h

theorem strings_write (items : List String) : strings (.list (items.map .str)) = .ok items :=
  list_write fun s _ => string_write s

theorem tableOf_write {entries : Table α} (h : ∀ a, read (write a) = .ok a) :
    tableOf read (.map (entries.mapValues write)) = .ok entries := by
  refine mapM_map (g := fun e : String × α => (e.1, write e.2)) fun e _ => ?_
  simp only [h]
  rfl

end Values

/-! ### Fields -/

/-- The entries, read one after the other, lead from one state of a record to another. -/
def Fills (field : σ → String → Tree → Decoded σ) (s : σ) (entries : Table Tree) (s' : σ) : Prop :=
  entries.foldlM (fun s e => field s e.1 e.2) s = .ok s'

section Fields
variable {field : σ → String → Tree → Decoded σ} {s s' s'' : σ} {name : String} {entries more : Table Tree}

theorem Fills.append (h : Fills field s entries s') (h' : Fills field s' more s'') :
    Fills field s (entries ++ more) s'' := by
  unfold Fills
  rw [List.foldlM_append]
  exact bind_eq_ok.mpr ⟨s', h, h'⟩

theorem Fills.one {t : Tree} (h : field s name t = .ok s') : Fills field s [(name, t)] s' :=
  bind_eq_ok.mpr ⟨s', h, rfl⟩

/-- A field that is read into its place of a record. -/
def Sets (field : σ → String → Tree → Decoded σ) (s : σ) (name : String) (read : Tree → Decoded α) (set : α → σ) :
    Prop :=
  ∀ t, field s name t = (read t >>= fun a => .ok (set a))

variable {read : Tree → Decoded α} {write : α → Tree}

/-- A part of a record that the field of a name is read into, and that no other field changes. -/
def Reads (field : σ → String → Tree → Decoded σ) (name : String) (read : Tree → Decoded α) (get : σ → α) : Prop :=
  ∀ s key t s', field s key t = .ok s' → if key = name then read t = .ok (get s') else get s' = get s

/-- Where no key stands twice, a part is read from its entry, or stays if there is none. -/
theorem Fills.part {get : σ → α} (h : Fills field s entries s') (hreads : Reads field name read get)
    (hdistinct : entries.Distinct) :
    match entries.valueAt? name with
    | some t => read t = .ok (get s')
    | none => get s' = get s := by
  induction entries generalizing s with
  | nil =>
    cases h
    rfl
  | cons e rest ih =>
    obtain ⟨key, t⟩ := e
    obtain ⟨hnew, hrest⟩ := List.nodup_cons.mp hdistinct
    obtain ⟨next, hnext, h⟩ := bind_eq_ok.mp h
    have hfirst := hreads s key t next hnext
    have hlast := ih h hrest
    rw [Table.valueAt?_cons]
    by_cases hkey : key = name
    · subst hkey
      rw [Table.valueAt?_eq_none.mpr hnew] at hlast
      simp only [if_true] at hfirst ⊢
      rwa [show get s' = get next from hlast]
    · rw [if_neg hkey] at hfirst ⊢
      rwa [hfirst] at hlast

/-- Entries lead somewhere if each of them does from anywhere. -/
theorem exists_fills (h : ∀ e ∈ entries, ∀ s, ∃ s', field s e.1 e.2 = .ok s') (s : σ) :
    ∃ s', Fills field s entries s' := by
  induction entries generalizing s with
  | nil => exact ⟨s, rfl⟩
  | cons e rest ih =>
    obtain ⟨hfirst, hrest⟩ := List.forall_mem_cons.mp h
    obtain ⟨next, hnext⟩ := hfirst s
    obtain ⟨s', hs'⟩ := ih hrest next
    exact ⟨s', bind_eq_ok.mpr ⟨next, hnext, hs'⟩⟩

theorem Fills.always {t : Tree} {a : α} (set : α → σ) (hset : Sets field s name read set) (ht : read t = .ok a) :
    Fills field s [(name, t)] (set a) := by
  refine .one ?_
  rw [hset, ht]
  rfl

theorem Fills.optional {x : Option α} (set : Option α → σ) (hset : Sets field (set none) name (optional read) set)
    (h : ∀ a ∈ x, read (write a) = .ok a ∧ write a ≠ .null) :
    Fills field (set none) (Encode.optional name write x) (set x) := by
  cases x with
  | none => rfl
  | some a => exact .always set hset (optional_write (h a rfl).1 (h a rfl).2)

theorem Fills.list {items : List α} (set : List α → σ) (hset : Sets field (set []) name (list read) set)
    (h : ∀ a ∈ items, read (write a) = .ok a) :
    Fills field (set []) (Encode.list name write items) (set items) := by
  cases items with
  | nil => rfl
  | cons a rest => exact .always set hset (list_write h)

theorem Fills.table {entries : Table Tree} (set : Table Tree → σ) (hset : Sets field (set []) name table set) :
    Fills field (set []) (Encode.table name entries) (set entries) := by
  cases entries with
  | nil => rfl
  | cons e rest => exact .always set hset rfl

theorem Fills.flag {b : Bool} (set : Bool → σ) (hset : Sets field (set false) name boolean set) :
    Fills field (set false) (Encode.flag name b) (set b) := by
  cases b with
  | false => rfl
  | true => exact .always set hset rfl

/-! ### Records that are read -/

variable {q : σ → Prop} {type : String} {start made : σ} {t : Tree}

theorem fields_keeps (hfield : ∀ key v s s', q s → field s key v = .ok s' → q s') (hstart : q start)
    (h : fields type field start t = .ok made) : q made := by
  cases t with
  | map entries => exact foldlM_keeps (fun e _ s s' hs hs' => hfield e.1 e.2 s s' hs hs') hstart h
  | _ => cases h

/-- What every field keeps, a record keeps. -/
theorem fieldsOrItems_keeps {names : List String} {required : Nat}
    (hfield : ∀ key (v : Tree) s s', v.IsPart t → q s → field s key v = .ok s' → q s') (hstart : q start)
    (h : fieldsOrItems type names required field start t = .ok made) : q made := by
  unfold fieldsOrItems at h
  split at h
  · rename_i entries
    refine foldlM_keeps (fun e he s s' hs hs' => ?_) hstart h
    exact hfield e.1 e.2 s s' ⟨e.1, he⟩ hs hs'
  · rename_i items
    obtain ⟨last, hlast, h⟩ := bind_eq_ok.mp h
    have hgood : q last := by
      refine foldlM_keeps (fun e he s s' hs hs' => ?_) hstart hlast
      exact hfield e.1 e.2 s s' (List.of_mem_zip he).2 hs hs'
    split at h
    · cases h
    · split at h
      · cases h
      · cases h
        exact hgood
  · cases h

/-! ### Metadata -/

/-- Metadata beside fields of some names: under other keys, each once. -/
structure Beside (names : List String) (metadata : Table Tree) : Prop where
  distinct : metadata.Distinct
  other : ∀ key ∈ metadata.keyList, key ∉ names

variable {names : List String} {metadata : Table Tree} {key : String}

theorem Beside.nil (names : List String) : Beside names [] := ⟨List.nodup_nil, fun _ h => by cases h⟩

theorem Beside.put (h : Beside names metadata) (hkey : key ∉ names) (t : Tree) : Beside names (metadata.put key t) := by
  refine ⟨h.distinct.put key t, fun k hk => ?_⟩
  rw [Table.keyList_put] at hk
  split at hk
  · exact h.other k hk
  · rcases List.mem_append.mp hk with hk | hk
    · exact h.other k hk
    · exact List.mem_singleton.mp hk ▸ hkey

theorem Fills.beside (set : Table Tree → σ)
    (hset : ∀ acc key t, key ∉ names → field (set acc) key t = .ok (set (acc.put key t)))
    (h : Beside names metadata) : Fills field (set []) metadata (set metadata) := by
  -- What has been read stands before the rest, so the keys of both together are distinct.
  have hfrom : ∀ (rest acc : Table Tree), Beside names (acc ++ rest) →
      Fills field (set acc) rest (set (acc ++ rest)) := by
    intro rest
    induction rest with
    | nil =>
      intro acc _
      rw [List.append_nil]
      rfl
    | cons e rest ih =>
      intro acc hacc
      have hkeys : (acc ++ e :: rest).keyList = acc.keyList ++ e.1 :: Table.keyList rest := List.map_append ..
      have hother : e.1 ∉ names := hacc.other e.1 (by rw [hkeys]; simp)
      have hnew : e.1 ∉ acc.keyList := by
        have hdistinct := hacc.distinct
        unfold Table.Distinct at hdistinct
        rw [hkeys, List.nodup_append] at hdistinct
        exact fun hmem => hdistinct.2.2 e.1 hmem e.1 (List.mem_cons_self ..) rfl
      have hstep : field (set acc) e.1 e.2 = .ok (set (acc ++ [e])) := by
        rw [hset acc e.1 e.2 hother, Table.put_of_not_mem hnew]
      have hsplit : acc ++ e :: rest = acc ++ [e] ++ rest := List.append_cons ..
      rw [hsplit] at hacc ⊢
      exact bind_eq_ok.mpr ⟨_, hstep, ih _ hacc⟩
  exact hfrom metadata [] h

end Fields

end Decode

end Bitpress
