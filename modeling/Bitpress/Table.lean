import Bitpress.Text.Basic

/-!
Tables: maps from text to values that remember the order in which their keys
first arrived. A key is written once: `put` replaces the value where the key
stands and appends a key that is new, so the keys of a table built by `put` are
distinct and in order of arrival.
-/

namespace Bitpress

/-- A map from text to values, in order of arrival. -/
abbrev Table (α : Type u) := List (String × α)

namespace Table

variable {α : Type u} {β : Type v}

def empty : Table α := []

def keyList (t : Table α) : List String := t.map Prod.fst

def valueAt? (t : Table α) (key : String) : Option α :=
  match t with
  | [] => none
  | (k, v) :: rest => if k = key then some v else valueAt? rest key

def hasKey (t : Table α) (key : String) : Bool := (t.valueAt? key).isSome

/-- Replaces the value of a key in its place, or appends a new key. -/
def put (t : Table α) (key : String) (value : α) : Table α :=
  match t with
  | [] => [(key, value)]
  | (k, v) :: rest => if k = key then (k, value) :: rest else (k, v) :: put rest key value

/-- The table without a key; the other keys keep their order. -/
def without (t : Table α) (key : String) : Table α :=
  match t with
  | [] => []
  | (k, v) :: rest => if k = key then rest else (k, v) :: without rest key

def putAll (t : Table α) (entries : List (String × α)) : Table α :=
  entries.foldl (fun acc e => acc.put e.1 e.2) t

/-- The table of a list of pairs: of a repeated key the first place and the last value count. -/
def ofPairs (entries : List (String × α)) : Table α := putAll [] entries

def mapValues (f : α → β) (t : Table α) : Table β := t.map fun e => (e.1, f e.2)

/-- The entries in order of their keys. -/
def sorted (t : Table α) : Table α := t.mergeSort fun a b => Text.inOrder a.1 b.1

/-- No key stands twice. -/
def Distinct (t : Table α) : Prop := t.keyList.Nodup

@[simp] theorem valueAt?_nil (key : String) : valueAt? ([] : Table α) key = none := rfl

@[simp] theorem keyList_nil : keyList ([] : Table α) = [] := rfl

@[simp] theorem keyList_cons (e : String × α) (t : Table α) :
    keyList (e :: t) = e.1 :: keyList t := rfl

theorem mem_of_valueAt? {t : Table α} {key : String} {value : α} (h : t.valueAt? key = some value) :
    (key, value) ∈ t := by
  induction t with
  | nil => cases h
  | cons e rest ih =>
    unfold valueAt? at h
    split at h
    · rename_i hkey
      cases h
      exact hkey ▸ List.mem_cons_self ..
    · exact List.mem_cons_of_mem e (ih h)

/-- A key that was there keeps its place and a new one comes last. -/
theorem keyList_put (t : Table α) (key : String) (value : α) :
    (t.put key value).keyList = if key ∈ t.keyList then t.keyList else t.keyList ++ [key] := by
  induction t with
  | nil => simp [put]
  | cons e rest ih =>
    obtain ⟨k, v⟩ := e
    by_cases h : k = key
    · simp [put, h]
    · have h' : ¬ key = k := fun he => h he.symm
      by_cases hm : key ∈ keyList rest <;> simp [put, h, h', ih, hm]

theorem valueAt?_put (t : Table α) (key : String) (value : α) (k : String) :
    (t.put key value).valueAt? k = if k = key then some value else t.valueAt? k := by
  induction t with
  | nil => by_cases h : key = k <;> simp [put, valueAt?, h, eq_comm]
  | cons e rest ih =>
    obtain ⟨a, v⟩ := e
    by_cases h : a = key
    · subst h
      by_cases hk : a = k
      · simp [put, valueAt?, hk]
      · have hk' : ¬ k = a := fun he => hk he.symm
        simp [put, valueAt?, hk, hk']
    · by_cases hk : a = k
      · subst hk
        simp [put, valueAt?, h]
      · simp [put, valueAt?, h, hk, ih]

theorem Distinct.put {t : Table α} (h : t.Distinct) (key : String) (value : α) :
    (t.put key value).Distinct := by
  unfold Distinct at *
  rw [keyList_put]
  split
  · exact h
  · rename_i hk
    rw [List.nodup_append]
    refine ⟨h, by simp, ?_⟩
    intro a ha b hb
    simp only [List.mem_singleton] at hb
    subst hb
    exact fun he => hk (he ▸ ha)

end Table

end Bitpress
