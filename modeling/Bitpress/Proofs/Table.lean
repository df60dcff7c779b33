import Bitpress.Table
import Mathlib.Data.List.Basic
import Mathlib.Data.List.Perm.Subperm

/-!
Laws of tables.

A table with distinct keys is known by the order of its keys and by what stands
under them (`eq_of_valueAt?`). Two tables merge key by key (`mergeWith`): what a
key then has depends on what it had in either (`valueAt?_mergeWith`), and the keys
stand in order of arrival (`keyList_mergeWith`).
-/

namespace Bitpress.Table

universe u v

variable {α : Type u} {t t' : Table α} {key : String} {value : α}

instance : Decidable t.Distinct := inferInstanceAs (Decidable t.keyList.Nodup)

/-! ### Looking up -/

theorem valueAt?_eq_none : t.valueAt? key = none ↔ key ∉ t.keyList := by
  induction t with
  | nil => simp
  | cons e rest ih =>
    obtain ⟨k, v⟩ := e
    by_cases h : k = key
    · simp [valueAt?, h]
    · simp [valueAt?, h, ih, Ne.symm h]

theorem hasKey_eq_false : t.hasKey key = false ↔ key ∉ t.keyList := by
  rw [← valueAt?_eq_none, hasKey, Option.isSome_eq_false_iff, Option.isNone_iff_eq_none]

theorem hasKey_eq_true : t.hasKey key = true ↔ key ∈ t.keyList := by
  rw [← not_iff_not, Bool.not_eq_true, hasKey_eq_false]

theorem mem_keyList_of_valueAt? (h : t.valueAt? key = some value) : key ∈ t.keyList :=
  List.mem_map_of_mem (mem_of_valueAt? h)

theorem valueAt?_of_mem (h : t.Distinct) {e : String × α} (he : e ∈ t) : t.valueAt? e.1 = some e.2 := by
  induction t with
  | nil => cases he
  | cons first rest ih =>
    obtain ⟨k, v⟩ := first
    obtain ⟨hnew, hrest⟩ := List.nodup_cons.mp h
    unfold valueAt?
    rcases List.mem_cons.mp he with rfl | he
    · exact if_pos rfl
    · have hk : k ≠ e.1 := fun hk => hnew (hk ▸ (List.mem_map_of_mem he : e.1 ∈ keyList rest))
      rw [if_neg hk, ih hrest he]

theorem valueAt?_put_self (t : Table α) (key : String) (value : α) : (t.put key value).valueAt? key = some value := by
  rw [valueAt?_put, if_pos rfl]

/-- Of keys that are put, each once, the new values count. -/
theorem valueAt?_putAll (t : Table α) {entries : Table α} (h : entries.Distinct) (key : String) :
    (t.putAll entries).valueAt? key = (entries.valueAt? key <|> t.valueAt? key) := by
  induction entries generalizing t with
  | nil => rfl
  | cons e rest ih =>
    obtain ⟨k, v⟩ := e
    obtain ⟨hnew, hrest⟩ := List.nodup_cons.mp h
    show ((t.put k v).putAll rest).valueAt? key = _
    rw [ih _ hrest, valueAt?_put, valueAt?]
    by_cases hk : k = key
    · rw [valueAt?_eq_none.mpr (hk ▸ hnew), if_pos hk, if_pos hk.symm]
      rfl
    · rw [if_neg hk, if_neg (Ne.symm hk)]

theorem keyList_prefix_put (t : Table α) (key : String) (value : α) : t.keyList <+: (t.put key value).keyList := by
  rw [keyList_put]
  split
  · exact List.prefix_rfl
  · exact List.prefix_append ..

theorem valueAt?_put_of_ne (t : Table α) (value : α) {k : String} (h : k ≠ key) :
    (t.put key value).valueAt? k = t.valueAt? k := by
  rw [valueAt?_put, if_neg h]

theorem valueAt?_cons (k : String) (v : α) (rest : Table α) :
    valueAt? ((k, v) :: rest) key = if k = key then some v else valueAt? rest key := rfl

theorem valueAt?_append (t u : Table α) (key : String) :
    valueAt? (t ++ u) key = (t.valueAt? key <|> u.valueAt? key) := by
  induction t with
  | nil => rfl
  | cons e rest ih =>
    obtain ⟨k, v⟩ := e
    rw [List.cons_append, valueAt?_cons, valueAt?_cons, ih]
    by_cases hk : k = key
    · rw [if_pos hk, if_pos hk]
      rfl
    · rw [if_neg hk, if_neg hk]

/-- Only some keys are kept. -/
theorem valueAt?_filter (t : Table α) (p : String → Bool) (key : String) :
    valueAt? (t.filter fun e => p e.1) key = if p key then t.valueAt? key else none := by
  induction t with
  | nil => exact (ite_self none).symm
  | cons e rest ih =>
    obtain ⟨k, v⟩ := e
    rw [List.filter_cons]
    by_cases hk : p k
    · rw [if_pos hk, valueAt?_cons, valueAt?_cons, ih]
      by_cases hkey : k = key
      · rw [if_pos hkey, if_pos hkey, if_pos (hkey ▸ hk)]
      · rw [if_neg hkey, if_neg hkey]
    · rw [if_neg hk, ih, valueAt?_cons]
      by_cases hkey : k = key
      · rw [if_neg (hkey ▸ hk), if_neg (hkey ▸ hk)]
      · rw [if_neg hkey]

theorem put_cons (k : String) (v : α) (rest : Table α) (key : String) (value : α) :
    put ((k, v) :: rest) key value = if k = key then (k, value) :: rest else (k, v) :: put rest key value := rfl

/-- A value that is there already changes nothing. -/
theorem put_of_valueAt? (h : t.valueAt? key = some value) : t.put key value = t := by
  induction t with
  | nil => cases h
  | cons e rest ih =>
    obtain ⟨k, v⟩ := e
    rw [valueAt?_cons] at h
    rw [put_cons]
    by_cases hk : k = key
    · rw [if_pos hk] at h ⊢
      cases h
      rfl
    · rw [if_neg hk] at h ⊢
      rw [ih h]

/-- A key that is not kept may get any value. -/
theorem filter_put_of_neg (t : Table α) {p : String → Bool} (h : p key = false) (value : α) :
    (t.put key value).filter (fun e => p e.1) = t.filter fun e => p e.1 := by
  induction t with
  | nil => simp [put, h]
  | cons e rest ih =>
    obtain ⟨k, v⟩ := e
    rw [put_cons]
    by_cases hk : k = key
    · simp [hk, h]
    · rw [if_neg hk, List.filter_cons, List.filter_cons, ih]

theorem filter_put_of_pos (t : Table α) {p : String → Bool} (h : p key = true) (value : α) :
    (t.put key value).filter (fun e => p e.1) = put (t.filter fun e => p e.1) key value := by
  induction t with
  | nil => simp [put, h]
  | cons e rest ih =>
    obtain ⟨k, v⟩ := e
    rw [put_cons]
    by_cases hk : k = key
    · simp [hk, h, put_cons]
    · rw [if_neg hk, List.filter_cons, List.filter_cons, ih]
      by_cases hp : p k
      · rw [if_pos hp, if_pos hp, put_cons, if_neg hk]
      · rw [if_neg hp, if_neg hp]

theorem without_cons (k : String) (v : α) (rest : Table α) (key : String) :
    without ((k, v) :: rest) key = if k = key then rest else (k, v) :: without rest key := rfl

theorem valueAt?_without (h : t.Distinct) (key k : String) :
    (t.without key).valueAt? k = if k = key then none else t.valueAt? k := by
  induction t with
  | nil => exact (ite_self none).symm
  | cons e rest ih =>
    obtain ⟨a, v⟩ := e
    obtain ⟨hnew, hrest⟩ := List.nodup_cons.mp h
    by_cases ha : a = key
    · subst ha
      rw [without_cons, if_pos rfl, valueAt?_cons]
      by_cases hk : k = a
      · subst hk
        rw [if_pos rfl, valueAt?_eq_none.mpr hnew]
      · rw [if_neg hk, if_neg (Ne.symm hk)]
    · rw [without_cons, if_neg ha, valueAt?_cons, valueAt?_cons, ih hrest]
      by_cases hk : a = k
      · subst hk
        rw [if_pos rfl, if_neg ha, if_pos rfl]
      · simp only [if_neg hk]

theorem valueAt?_without_of_ne (t : Table α) {k : String} (h : k ≠ key) : (t.without key).valueAt? k = t.valueAt? k := by
  induction t with
  | nil => rfl
  | cons e rest ih =>
    obtain ⟨a, v⟩ := e
    rw [without_cons]
    split
    · rename_i ha
      rw [valueAt?_cons, if_neg (ha ▸ Ne.symm h)]
    · rw [valueAt?_cons, valueAt?_cons, ih]

theorem without_of_not_mem (h : key ∉ t.keyList) : t.without key = t := by
  induction t with
  | nil => rfl
  | cons e rest ih =>
    obtain ⟨k, v⟩ := e
    obtain ⟨hk, hrest⟩ := not_or.mp (mt List.mem_cons.mpr h)
    rw [without_cons]
    rw [if_neg (Ne.symm hk), ih hrest]

/-- The other keys stand as they stood. -/
theorem keyList_without_sublist : (t.without key).keyList.Sublist t.keyList := by
  induction t with
  | nil => exact .slnil
  | cons e rest ih =>
    obtain ⟨k, v⟩ := e
    rw [without_cons]
    split
    · exact List.sublist_cons_self ..
    · exact ih.cons_cons k

theorem keyList_without_subset : (t.without key).keyList ⊆ t.keyList := keyList_without_sublist.subset

theorem Distinct.without (h : t.Distinct) (key : String) : (t.without key).Distinct := by
  induction t with
  | nil => exact h
  | cons e rest ih =>
    obtain ⟨k, v⟩ := e
    obtain ⟨hnew, hrest⟩ := List.nodup_cons.mp h
    rw [without_cons]
    split
    · exact hrest
    · exact List.nodup_cons.mpr ⟨fun hk => hnew (keyList_without_subset hk), ih hrest⟩

theorem Distinct.filter (h : t.Distinct) (p : String × α → Bool) : Distinct (List.filter p t) :=
  List.Nodup.sublist (List.Sublist.map Prod.fst List.filter_sublist) h

theorem without_eq_filter (h : t.Distinct) (key : String) : t.without key = t.filter fun e => e.1 != key := by
  induction t with
  | nil => rfl
  | cons e rest ih =>
    obtain ⟨k, v⟩ := e
    obtain ⟨hnew, hrest⟩ := List.nodup_cons.mp h
    rw [without_cons]
    by_cases hk : k = key
    · subst hk
      have hall : ∀ e ∈ rest, (e.1 != k) = true := fun e he =>
        bne_iff_ne.mpr fun hek => hnew (hek ▸ (List.mem_map_of_mem he : e.1 ∈ keyList rest))
      simp [List.filter_eq_self.mpr hall]
    · simp [hk, ih hrest]

/-- A table with distinct keys is known by their order and by what stands under them. -/
theorem eq_of_valueAt? (h : t.Distinct) (hkeys : t.keyList = t'.keyList)
    (hvalues : ∀ k, t.valueAt? k = t'.valueAt? k) : t = t' := by
  induction t generalizing t' with
  | nil => exact (List.map_eq_nil_iff.mp hkeys.symm).symm
  | cons e rest ih =>
    obtain ⟨k, v⟩ := e
    obtain ⟨hnew, hrest⟩ := List.nodup_cons.mp h
    cases t' with
    | nil => cases hkeys
    | cons e' rest' =>
      obtain ⟨k', v'⟩ := e'
      obtain ⟨hk, hkeys'⟩ : k = k' ∧ keyList rest = keyList rest' := List.cons.inj hkeys
      subst hk
      have hv : v = v' := by simpa [valueAt?] using hvalues k
      have hbelow : rest = rest' := ih hrest hkeys' fun j => by
        by_cases hj : k = j
        · subst hj
          have hnew' : k ∉ keyList rest' := hkeys' ▸ hnew
          rw [valueAt?_eq_none.mpr hnew, valueAt?_eq_none.mpr hnew']
        · simpa [valueAt?, hj] using hvalues j
      rw [hv, hbelow]

theorem put_of_not_mem (h : key ∉ t.keyList) : t.put key value = t ++ [(key, value)] := by
  induction t with
  | nil => rfl
  | cons e rest ih =>
    obtain ⟨k, v⟩ := e
    obtain ⟨hk, hrest⟩ := not_or.mp (mt List.mem_cons.mpr h)
    rw [put_cons]
    rw [if_neg (Ne.symm hk), ih hrest]
    rfl

theorem mem_put {e : String × α} (h : e ∈ t.put key value) : e ∈ t ∨ e = (key, value) := by
  induction t with
  | nil => exact .inr (List.mem_singleton.mp h)
  | cons first rest ih =>
    obtain ⟨k, u⟩ := first
    rw [put_cons] at h
    split at h
    · rename_i hk
      subst hk
      exact (List.mem_cons.mp h).elim .inr fun h => .inl (List.mem_cons_of_mem _ h)
    · rcases List.mem_cons.mp h with rfl | h
      · exact .inl (List.mem_cons_self ..)
      · exact (ih h).imp_left (List.mem_cons_of_mem _)

theorem mem_of_mem_without {e : String × α} (h : e ∈ t.without key) : e ∈ t := by
  induction t with
  | nil => exact h
  | cons first rest ih =>
    obtain ⟨k, u⟩ := first
    rw [without_cons] at h
    split at h
    · exact List.mem_cons_of_mem _ h
    · exact (List.mem_cons.mp h).elim (fun he => he ▸ List.mem_cons_self ..) fun h => List.mem_cons_of_mem _ (ih h)

/-- What holds of the values of a table holds of them after a new one, if it does too. -/
theorem forall_put {good : α → Prop} (h : ∀ e ∈ t, good e.2) (hv : good value) :
    ∀ e ∈ t.put key value, good e.2 := by
  intro e he
  rcases mem_put he with he | rfl
  · exact h e he
  · exact hv

theorem forall_without {good : α → Prop} (h : ∀ e ∈ t, good e.2) : ∀ e ∈ t.without key, good e.2 :=
  fun e he => h e (mem_of_mem_without he)

/-- The table where a key has what is given: a value, or nothing. -/
def assign (t : Table α) (key : String) : Option α → Table α
  | some value => t.put key value
  | none => t.without key

theorem valueAt?_assign (h : t.Distinct) (key : String) (made : Option α) (k : String) :
    (t.assign key made).valueAt? k = if k = key then made else t.valueAt? k := by
  cases made with
  | none => exact valueAt?_without h key k
  | some value => exact valueAt?_put t key value k

theorem valueAt?_assign_of_ne (t : Table α) (made : Option α) {k : String} (h : k ≠ key) :
    (t.assign key made).valueAt? k = t.valueAt? k := by
  cases made with
  | none => exact valueAt?_without_of_ne t h
  | some value => exact valueAt?_put_of_ne t value h

theorem Distinct.assign (h : t.Distinct) (key : String) (made : Option α) : (t.assign key made).Distinct := by
  cases made with
  | none => exact h.without key
  | some value => exact h.put key value

theorem forall_assign {good : α → Prop} {made : Option α} (h : ∀ e ∈ t, good e.2) (hmade : ∀ v ∈ made, good v) :
    ∀ e ∈ t.assign key made, good e.2 := by
  cases made with
  | none => exact forall_without h
  | some value => exact forall_put h (hmade value rfl)

/-! ### Tables of pairs -/

theorem keyList_append (t t' : Table α) : keyList (t ++ t') = t.keyList ++ t'.keyList := List.map_append

theorem Distinct.putAll (h : t.Distinct) (entries : List (String × α)) : (t.putAll entries).Distinct := by
  induction entries generalizing t with
  | nil => exact h
  | cons e rest ih => exact ih (h.put e.1 e.2)

theorem distinct_ofPairs (entries : List (String × α)) : (ofPairs entries).Distinct :=
  Distinct.putAll (t := []) List.nodup_nil entries

theorem mem_keyList_putAll {entries : List (String × α)} :
    key ∈ (t.putAll entries).keyList ↔ key ∈ t.keyList ∨ key ∈ keyList entries := by
  induction entries generalizing t with
  | nil => simp [putAll]
  | cons e rest ih =>
    have hput : key ∈ (t.put e.1 e.2).keyList ↔ key ∈ t.keyList ∨ key = e.1 := by
      rw [keyList_put]
      split
      · rename_i hmem
        exact ⟨.inl, fun h => h.elim id fun h => h ▸ hmem⟩
      · simp
    rw [keyList_cons, List.mem_cons, ← or_assoc, ← hput]
    exact ih

/-- Pairs with keys of their own are put one behind the other. -/
theorem putAll_of_distinct {entries : List (String × α)} (h : Distinct (t ++ entries)) : t.putAll entries = t ++ entries := by
  induction entries generalizing t with
  | nil => exact (List.append_nil t).symm
  | cons e rest ih =>
    have hnew : e.1 ∉ t.keyList := fun hmem => by
      rw [Distinct, keyList_append, List.nodup_append] at h
      exact h.2.2 e.1 hmem e.1 (List.mem_cons_self ..) rfl
    have hsplit : t ++ e :: rest = t ++ [e] ++ rest := List.append_cons ..
    rw [hsplit] at h ⊢
    show (t.put e.1 e.2).putAll rest = _
    rw [put_of_not_mem hnew, ih h]

/-- Of pairs, one is lost exactly if a key stands twice. -/
theorem length_ofPairs {entries : List (String × α)} : (ofPairs entries).length = entries.length ↔ Distinct entries := by
  refine ⟨fun h => ?_, fun h => congrArg List.length (putAll_of_distinct (t := []) h)⟩
  have hkeys : (ofPairs entries).keyList.Subperm (keyList entries) :=
    (distinct_ofPairs entries).subperm fun key hkey => (mem_keyList_putAll.mp hkey).elim nofun id
  have hlength : (keyList entries).length ≤ (ofPairs entries).keyList.length := by
    simp [keyList, h]
  exact (hkeys.perm_of_length_le hlength).nodup_iff.mp (distinct_ofPairs entries)

theorem ofPairs_eq_self {entries : List (String × α)} : ofPairs entries = entries ↔ Distinct entries :=
  ⟨fun h => length_ofPairs.mp (congrArg List.length h), fun h => putAll_of_distinct (t := []) h⟩

/-! ### Changing the values -/

section Changing
variable {β : Type v} (h : α → β)

theorem valueAt?_mapValues (t : Table α) (key : String) : (t.mapValues h).valueAt? key = (t.valueAt? key).map h := by
  induction t with
  | nil => rfl
  | cons e rest ih =>
    obtain ⟨k, v⟩ := e
    by_cases hk : k = key
    · simp [mapValues, valueAt?, hk]
    · simpa [mapValues, valueAt?, hk] using ih

theorem mapValues_put (t : Table α) (key : String) (value : α) :
    (t.put key value).mapValues h = (t.mapValues h).put key (h value) := by
  induction t with
  | nil => rfl
  | cons e rest ih =>
    obtain ⟨k, v⟩ := e
    by_cases hk : k = key
    · simp [mapValues, put, hk]
    · simpa [mapValues, put, hk] using ih

theorem keyList_mapValues (t : Table α) : (t.mapValues h).keyList = t.keyList := by
  simp [keyList, mapValues, Function.comp_def]

theorem Distinct.mapValues (ht : t.Distinct) : (t.mapValues h).Distinct := by
  unfold Distinct
  rwa [keyList_mapValues]

theorem mapValues_ofPairs (entries : List (String × α)) :
    (ofPairs entries).mapValues h = ofPairs (mapValues h entries) := by
  have hfrom : ∀ t : Table α, (t.putAll entries).mapValues h = (t.mapValues h).putAll (mapValues h entries) := by
    induction entries with
    | nil => exact fun _ => rfl
    | cons e rest ih =>
      intro t
      show ((t.put e.1 e.2).putAll rest).mapValues h = ((t.mapValues h).put e.1 (h e.2)).putAll (mapValues h rest)
      rw [ih, mapValues_put]
  exact hfrom []

end Changing

/-! ### Some keys -/

/-- The entries of some keys. -/
def kept (t : Table α) (keep : String → Bool) : Table α := t.filter fun e => keep e.1

/-- All others. -/
def dropped (t : Table α) (keep : String → Bool) : Table α := t.filter fun e => !keep e.1

variable {keep : String → Bool}

theorem valueAt?_kept (h : keep key = true) (t : Table α) : (t.kept keep).valueAt? key = t.valueAt? key := by
  unfold kept
  rw [valueAt?_filter, if_pos h]

theorem valueAt?_kept_of_dropped (h : keep key = false) (t : Table α) : (t.kept keep).valueAt? key = none := by
  unfold kept
  rw [valueAt?_filter, h]
  rfl

theorem valueAt?_dropped (h : keep key = false) (t : Table α) : (t.dropped keep).valueAt? key = t.valueAt? key := by
  unfold dropped
  rw [valueAt?_filter t (fun k => !keep k), h]
  rfl

theorem kept_put (h : keep key = true) (t : Table α) (value : α) : (t.put key value).kept keep = (t.kept keep).put key value :=
  filter_put_of_pos t h value

theorem kept_put_of_dropped (h : keep key = false) (t : Table α) (value : α) : (t.put key value).kept keep = t.kept keep :=
  filter_put_of_neg t h value

theorem dropped_put (h : keep key = false) (t : Table α) (value : α) :
    (t.put key value).dropped keep = (t.dropped keep).put key value :=
  filter_put_of_pos (p := fun k => !keep k) t (by rw [h, Bool.not_false]) value

theorem dropped_put_of_kept (h : keep key = true) (t : Table α) (value : α) :
    (t.put key value).dropped keep = t.dropped keep :=
  filter_put_of_neg (p := fun k => !keep k) t (by rw [h, Bool.not_true]) value

theorem kept_without (h : keep key = true) (t : Table α) : (t.without key).kept keep = (t.kept keep).without key := by
  induction t with
  | nil => rfl
  | cons e rest ih =>
    obtain ⟨k, v⟩ := e
    unfold kept at *
    rw [without_cons]
    by_cases hk : k = key
    · rw [if_pos hk, List.filter_cons, if_pos (hk ▸ h), without_cons, if_pos hk]
    · rw [if_neg hk, List.filter_cons, List.filter_cons, ih]
      split
      · rw [without_cons, if_neg hk]
      · rfl

theorem dropped_without (h : keep key = true) (t : Table α) : (t.without key).dropped keep = t.dropped keep := by
  induction t with
  | nil => rfl
  | cons e rest ih =>
    obtain ⟨k, v⟩ := e
    unfold dropped at *
    rw [without_cons]
    by_cases hk : k = key
    · simp [hk, h]
    · rw [if_neg hk, List.filter_cons, List.filter_cons, ih]

theorem kept_assign (h : keep key = true) (t : Table α) (made : Option α) :
    (t.assign key made).kept keep = (t.kept keep).assign key made := by
  cases made with
  | some value => exact kept_put h t value
  | none => exact kept_without h t

theorem dropped_assign (h : keep key = true) (t : Table α) (made : Option α) :
    (t.assign key made).dropped keep = t.dropped keep := by
  cases made with
  | some value => exact dropped_put_of_kept h t value
  | none => exact dropped_without h t

/-- Two tables with the same values under the same keys, in whatever order. -/
structure Same (t t' : Table α) : Prop where
  left : t.Distinct
  right : t'.Distinct
  values : ∀ key, t.valueAt? key = t'.valueAt? key

theorem Same.assign (h : Same t t') (key : String) (made : Option α) :
    Same (t.assign key made) (t'.assign key made) := by
  refine ⟨h.left.assign key made, h.right.assign key made, fun k => ?_⟩
  rw [valueAt?_assign h.left, valueAt?_assign h.right, h.values k]

/-! ### Merging key by key -/

section Merging
variable {β : Type v} {meet : α → α → α} {base above : Table α}

/-- What a new value of a key makes of what the key had. -/
def meetAt (meet : α → α → α) (base : Table α) (key : String) (value : α) : α :=
  match base.valueAt? key with
  | some there => meet there value
  | none => value

/-- A table merged over another one, key by key. -/
def mergeWith (meet : α → α → α) (base above : Table α) : Table α :=
  above.foldl (fun acc e => acc.put e.1 (meetAt meet acc e.1 e.2)) base

theorem some_meetAt (meet : α → α → α) (base : Table α) (key : String) (value : α) :
    some (meetAt meet base key value) = (base.valueAt? key).merge meet (some value) := by
  unfold meetAt
  cases base.valueAt? key <;> rfl

theorem valueAt?_mergeWith (h : above.Distinct) (k : String) :
    (mergeWith meet base above).valueAt? k = (base.valueAt? k).merge meet (above.valueAt? k) := by
  induction above generalizing base with
  | nil => exact Option.merge_none_right.symm
  | cons e rest ih =>
    obtain ⟨key, value⟩ := e
    obtain ⟨hnew, hrest⟩ := List.nodup_cons.mp h
    show (mergeWith meet (base.put key (meetAt meet base key value)) rest).valueAt? k = _
    rw [ih hrest, valueAt?_put, valueAt?_cons]
    by_cases hk : k = key
    · subst hk
      rw [if_pos rfl, if_pos rfl, valueAt?_eq_none.mpr hnew, some_meetAt, Option.merge_none_right]
    · rw [if_neg hk, if_neg (Ne.symm hk)]

theorem Distinct.mergeWith (h : base.Distinct) (above : Table α) : (mergeWith meet base above).Distinct := by
  induction above generalizing base with
  | nil => exact h
  | cons e rest ih => exact ih (h.put e.1 _)

/-- The keys of the base keep their places, and those that only the other table has come behind them. -/
theorem keyList_mergeWith (h : above.Distinct) :
    (mergeWith meet base above).keyList =
      base.keyList ++ above.keyList.filter fun k => k ∉ base.keyList := by
  induction above generalizing base with
  | nil => exact (List.append_nil _).symm
  | cons e rest ih =>
    obtain ⟨key, value⟩ := e
    obtain ⟨hnew, hrest⟩ := List.nodup_cons.mp h
    show (mergeWith meet (base.put key (meetAt meet base key value)) rest).keyList = _
    rw [ih hrest, keyList_put, keyList_cons, List.filter_cons]
    by_cases hkey : key ∈ base.keyList
    · simp [hkey]
    · have hrest' : (keyList rest).filter (fun k => k ∉ base.keyList ++ [key]) =
          (keyList rest).filter fun k => k ∉ base.keyList := by
        refine List.filter_congr fun k hk => ?_
        have hne : k ≠ key := fun he => hnew (he ▸ hk)
        simp [hne]
      rw [if_neg hkey, hrest', if_pos (decide_eq_true hkey), List.append_assoc]
      rfl

/-- Merged over the empty table, a table is as it was. -/
theorem mergeWith_nil_left (h : above.Distinct) : mergeWith meet [] above = above := by
  have hnil : Distinct ([] : Table α) := List.nodup_nil
  refine eq_of_valueAt? (hnil.mergeWith above) ?_ fun k => ?_
  · rw [keyList_mergeWith h]
    simp
  · rw [valueAt?_mergeWith h]
    exact Option.merge_none_left

/-- Values that make nothing new of what stands under their keys change nothing. -/
theorem mergeWith_eq_self (h : ∀ e ∈ above, ∃ there, base.valueAt? e.1 = some there ∧ meet there e.2 = there) :
    mergeWith meet base above = base := by
  induction above with
  | nil => rfl
  | cons e rest ih =>
    obtain ⟨⟨there, hthere, hmeet⟩, hrest⟩ := List.forall_mem_cons.mp h
    have hsame : base.put e.1 (meetAt meet base e.1 e.2) = base := by
      rw [meetAt, hthere]
      exact put_of_valueAt? (hthere.trans (congrArg some hmeet.symm))
    show mergeWith meet (base.put e.1 (meetAt meet base e.1 e.2)) rest = base
    rw [hsame, ih hrest]

/-- A table that was merged in changes nothing the second time, if none of its values does. -/
theorem mergeWith_mergeWith (habove : above.Distinct)
    (h : ∀ e ∈ above, meet e.2 e.2 = e.2 ∧ ∀ v, meet (meet v e.2) e.2 = meet v e.2) :
    mergeWith meet (mergeWith meet base above) above = mergeWith meet base above := by
  refine mergeWith_eq_self fun e he => ?_
  obtain ⟨hself, hagain⟩ := h e he
  rw [valueAt?_mergeWith habove, valueAt?_of_mem habove he]
  cases base.valueAt? e.1 with
  | none => exact ⟨e.2, Option.merge_none_left, hself⟩
  | some v => exact ⟨meet v e.2, rfl, hagain v⟩

/-- A table that has other keys comes behind. -/
theorem mergeWith_of_disjoint (habove : above.Distinct) (h : ∀ k ∈ above.keyList, k ∉ base.keyList) :
    mergeWith meet base above = base ++ above := by
  induction above generalizing base with
  | nil => exact (List.append_nil base).symm
  | cons e rest ih =>
    obtain ⟨key, value⟩ := e
    obtain ⟨hnew, hrest⟩ := List.nodup_cons.mp habove
    obtain ⟨hkey, hbelow⟩ := List.forall_mem_cons.mp h
    have hmeet : meetAt meet base key value = value := by rw [meetAt, valueAt?_eq_none.mpr hkey]
    have hfirst : base.put key (meetAt meet base key value) = base ++ [(key, value)] := by
      rw [hmeet, put_of_not_mem hkey]
    show mergeWith meet (base.put key (meetAt meet base key value)) rest = _
    rw [hfirst, ih hrest fun k hk hmem => ?_, List.append_assoc]
    · rfl
    · rw [keyList, List.map_append, List.mem_append] at hmem
      rcases hmem with hmem | hmem
      · exact hbelow k hk hmem
      · rw [List.map_singleton, List.mem_singleton] at hmem
        exact hnew (hmem ▸ hk)

/-- Values may be changed before tables are merged or after it, if it is the same for values that meet. -/
theorem mapValues_mergeWith {h : α → β} {meet' : β → β → β}
    (hmeet : ∀ e ∈ above, ∀ v, h (meet v e.2) = meet' (h v) (h e.2)) :
    (mergeWith meet base above).mapValues h = mergeWith meet' (base.mapValues h) (above.mapValues h) := by
  induction above generalizing base with
  | nil => rfl
  | cons e rest ih =>
    obtain ⟨hfirst, hrest⟩ := List.forall_mem_cons.mp hmeet
    have hput : h (meetAt meet base e.1 e.2) = meetAt meet' (base.mapValues h) e.1 (h e.2) := by
      unfold meetAt
      rw [valueAt?_mapValues]
      cases base.valueAt? e.1 with
      | none => rfl
      | some there => exact hfirst there
    show (mergeWith meet (base.put e.1 (meetAt meet base e.1 e.2)) rest).mapValues h =
      mergeWith meet' ((base.mapValues h).put e.1 (meetAt meet' (base.mapValues h) e.1 (h e.2))) (mapValues h rest)
    rw [ih hrest, mapValues_put, hput]

/-- Three tables may be merged in either order if the values of each key that all of them have may. -/
theorem mergeWith_assoc {top : Table α} (hbase : base.Distinct) (habove : above.Distinct) (htop : top.Distinct)
    (h : ∀ k u v w, base.valueAt? k = some u → above.valueAt? k = some v → top.valueAt? k = some w →
      meet u (meet v w) = meet (meet u v) w) :
    mergeWith meet base (mergeWith meet above top) = mergeWith meet (mergeWith meet base above) top := by
  have hupper : (mergeWith meet above top).Distinct := habove.mergeWith top
  refine eq_of_valueAt? (hbase.mergeWith _) ?_ fun k => ?_
  · rw [keyList_mergeWith hupper, keyList_mergeWith htop, keyList_mergeWith htop, keyList_mergeWith habove,
      List.filter_append, List.filter_filter, List.append_assoc]
    congr 2
    refine List.filter_congr fun k _ => ?_
    by_cases hb : k ∈ base.keyList <;> by_cases ha : k ∈ above.keyList <;> simp [hb, ha]
  · rw [valueAt?_mergeWith hupper, valueAt?_mergeWith htop, valueAt?_mergeWith htop, valueAt?_mergeWith habove]
    cases hu : base.valueAt? k with
    | none => simp
    | some u =>
      cases hv : above.valueAt? k with
      | none => simp
      | some v =>
        cases hw : top.valueAt? k with
        | none => simp
        | some w => exact congrArg some (h k u v w hu hv hw)

/-- What holds of the values of two tables holds of the merged one, if it does of values that meet. -/
theorem forall_mergeWith {good : α → Prop} (hbase : ∀ e ∈ base, good e.2) (habove : ∀ e ∈ above, good e.2)
    (hmeet : ∀ v w, good v → good w → good (meet v w)) : ∀ e ∈ mergeWith meet base above, good e.2 := by
  induction above generalizing base with
  | nil => exact hbase
  | cons e rest ih =>
    obtain ⟨hfirst, hrest⟩ := List.forall_mem_cons.mp habove
    refine ih (forall_put hbase ?_) hrest
    unfold meetAt
    split
    · rename_i there hthere
      exact hmeet there e.2 (hbase _ (mem_of_valueAt? hthere)) hfirst
    · exact hfirst

end Merging

end Bitpress.Table
