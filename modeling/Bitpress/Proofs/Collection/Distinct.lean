import Bitpress.Constant
import Bitpress.Proofs.Absorb
import Bitpress.Proofs.Collection

/-!
Collections have each identity once.

An element whose identity is there is refused, and of several elements those before
the first that is refused are taken (`Collection.extend_cases`). What is found in a
collection is a part of it, in its order. So whatever is done with collections, one
thing after the other and with what was found as well, each of them has each
identity once (`Collection.deeds_keep_distinct`).
-/

namespace Bitpress.Collection

variable {α : Type} [Element α] {c found : Collection α} {a : α} {items : List α}

/-- No identity stands twice. -/
def Distinct (c : Collection α) : Prop := (c.items.map Element.id).Nodup

/-- Elements that a collection does not have, none of them twice. -/
structure New (c : Collection α) (items : List α) : Prop where
  distinct : (items.map Element.id).Nodup
  unknown : ∀ a ∈ items, Element.id a ∉ c.items.map Element.id

theorem Distinct.empty : (empty : Collection α).Distinct := List.nodup_nil

theorem Distinct.of_sublist (hc : c.Distinct) (h : found.items.Sublist c.items) : found.Distinct :=
  List.Nodup.sublist (h.map Element.id) hc

theorem Distinct.append (hc : c.Distinct) (h : New c items) : Distinct ⟨c.items ++ items⟩ := by
  unfold Distinct
  rw [List.map_append]
  refine List.nodup_append.mpr ⟨hc, h.distinct, fun i hi j hj he => ?_⟩
  obtain ⟨a, ha, rfl⟩ := List.mem_map.mp hj
  exact h.unknown a ha (he ▸ hi)

theorem New.nil (c : Collection α) : New c [] := ⟨List.nodup_nil, fun _ h => by cases h⟩

theorem New.cons (ha : Element.id a ∉ c.items.map Element.id) (h : New ⟨c.items ++ [a]⟩ items) : New c (a :: items) := by
  have hboth : ∀ b ∈ items, Element.id b ∉ c.items.map Element.id ∧ Element.id b ≠ Element.id a := fun b hb => by
    simpa only [List.map_append, List.map_singleton, List.mem_append, List.mem_singleton, not_or] using h.unknown b hb
  refine ⟨List.nodup_cons.mpr ⟨fun hmem => ?_, h.distinct⟩, List.forall_mem_cons.mpr ⟨ha, fun b hb => (hboth b hb).1⟩⟩
  obtain ⟨b, hb, he⟩ := List.mem_map.mp hmem
  exact (hboth b hb).2 he

/-! ### Adding -/

/-- Of what is offered, an element is the first that a collection or what is offered before it has already. -/
structure Repeats (c : Collection α) (offered before : List α) (a : α) : Prop where
  split : before ++ [a] <+: offered
  new : New c before
  known : Element.id a ∈ (c.items ++ before).map Element.id

theorem Repeats.head (h : Element.id a ∈ c.items.map Element.id) : Repeats c (a :: items) [] a :=
  ⟨⟨items, rfl⟩, .nil c, by rwa [List.append_nil]⟩

theorem Repeats.cons {b : α} {before : List α} (hb : Element.id b ∉ c.items.map Element.id)
    (h : Repeats ⟨c.items ++ [b]⟩ items before a) : Repeats c (b :: items) (b :: before) a :=
  ⟨List.cons_prefix_cons.mpr ⟨rfl, h.split⟩, .cons hb h.new, by simpa using h.known⟩

/-- Either all that is offered is new and is added, or what comes before the first repetition is. -/
theorem extend_cases (c : Collection α) (offered : List α) :
    New c offered ∧ c.extend offered = (⟨c.items ++ offered⟩, none) ∨
      ∃ before a, Repeats c offered before a ∧
        c.extend offered = (⟨c.items ++ before⟩, some (.duplicateElement (Element.label a))) := by
  induction offered generalizing c with
  | nil => exact .inl ⟨.nil c, by rw [List.append_nil]; rfl⟩
  | cons b rest ih =>
    by_cases hid : c.hasId (Element.id b) = true
    · refine .inr ⟨[], b, .head (hasId_iff.mp hid), ?_⟩
      rw [List.append_nil, extend, push, if_pos hid]
    · have hb : Element.id b ∉ c.items.map Element.id := fun h => hid (hasId_iff.mpr h)
      have hfirst : c.extend (b :: rest) = extend ⟨c.items ++ [b]⟩ rest := by rw [extend, push_of_new hb]
      rw [hfirst]
      rcases ih ⟨c.items ++ [b]⟩ with ⟨hnew, hall⟩ | ⟨before, a, hrepeats, hsome⟩
      · exact .inl ⟨hnew.cons hb, by rw [hall, List.append_assoc]; rfl⟩
      · exact .inr ⟨b :: before, a, hrepeats.cons hb, by rw [hsome, List.append_assoc]; rfl⟩

/-- What is added one by one is distinct if what was there is. -/
theorem Distinct.extend (hc : c.Distinct) (offered : List α) : (c.extend offered).1.Distinct := by
  rcases extend_cases c offered with ⟨hnew, hall⟩ | ⟨before, a, hrepeats, hsome⟩
  · rw [hall]
    exact hc.append hnew
  · rw [hsome]
    exact hc.append hrepeats.new

theorem ofItems_distinct (h : ofItems items = .ok c) : c.Distinct := by
  have hextend := Distinct.empty.extend items
  unfold ofItems at h
  split at h
  · rename_i heq
    cases h
    rwa [heq] at hextend
  · cases h

/-! ### One thing after the other -/

/-- What changes a collection in its place. -/
inductive Change (α : Type)
  | push (a : α)
  | extend (items : List α)
  | clear

/-- What makes a collection of what it finds in another one. -/
inductive Search
  | filter (f : Filter)
  | query (id : Option ElementId) (f : Filter)
  | whereClause (w : WhereClause)

/-- What is done with the collections at hand, which are counted from zero. A collection that is made comes last. -/
inductive Deed (α : Type)
  | make (items : List α)
  | change (place : Nat) (what : Change α)
  | search (place : Nat) (what : Search)

/-- The elements that a change adds, if they are all accepted. -/
def Change.offered : Change α → List α
  | .push a => [a]
  | .extend items => items
  | .clear => []

/-- The collection as a change leaves it, and the error if it was refused. -/
def Change.on (c : Collection α) : Change α → Collection α × Option Error
  | .push a =>
    match c.push a with
    | .ok d => (d, none)
    | .error e => (c, some e)
  | .extend items => c.extend items
  | .clear => (.empty, none)

/-- The collection of what is found. -/
def Search.on (c : Collection α) : Search → Outcome (Collection α)
  | .filter f => c.filter f
  | .query id f => c.query id f
  | .whereClause w => c.whereClause w

/-- The collections at hand with one that was made, or the error if none was. -/
def added (hand : List (Collection α)) : Outcome (Collection α) → List (Collection α) × Option Error
  | .ok c => (hand ++ [c], none)
  | .error e => (hand, some e)

def Deed.on (hand : List (Collection α)) : Deed α → List (Collection α) × Option Error
  | .make items => added hand (ofItems items)
  | .change place what =>
    match hand[place]? with
    | some c => (hand.set place (what.on c).1, (what.on c).2)
    | none => (hand, none)
  | .search place what =>
    match hand[place]? with
    | some c => added hand (what.on c)
    | none => (hand, none)

/-- The collections at hand after all that was done. -/
def after (hand : List (Collection α)) : List (Deed α) → List (Collection α)
  | [] => hand
  | deed :: rest => after (deed.on hand).1 rest

theorem Change.on_push (c : Collection α) (a : α) : (Change.push a).on c = (Change.extend [a]).on c := by
  unfold Change.on Collection.extend
  cases c.push a <;> rfl

/-- A change empties a collection, or adds all that is offered, or what is offered before the first repetition. -/
theorem Change.on_cases (c : Collection α) (what : Change α) :
    what = .clear ∧ what.on c = (.empty, none) ∨
      New c what.offered ∧ what.on c = (⟨c.items ++ what.offered⟩, none) ∨
      ∃ before a, Repeats c what.offered before a ∧
        what.on c = (⟨c.items ++ before⟩, some (.duplicateElement (Element.label a))) := by
  cases what with
  | push a =>
    rw [on_push]
    exact .inr (extend_cases c [a])
  | extend items => exact .inr (extend_cases c items)
  | clear => exact .inl ⟨rfl, rfl⟩

theorem Change.on_distinct (hc : c.Distinct) (what : Change α) : (what.on c).1.Distinct := by
  cases what with
  | push a =>
    rw [on_push]
    exact hc.extend [a]
  | extend items => exact hc.extend items
  | clear => exact .empty

theorem Search.on_sublist {s : Search} (h : s.on c = .ok found) : found.items.Sublist c.items := by
  cases s with
  | filter f => exact filter_sublist h
  | query id f => exact query_sublist h
  | whereClause w => exact whereClause_sublist h

section Hand
variable {hand : List (Collection α)} {place : Nat}

theorem Deed.on_change (h : hand[place]? = some c) (what : Change α) :
    (change place what).on hand = (hand.set place (what.on c).1, (what.on c).2) := by
  rw [on, h]

theorem Deed.on_search (h : hand[place]? = some c) (what : Search) :
    (search place what).on hand = added hand (what.on c) := by
  rw [on, h]

theorem added_distinct (h : ∀ c ∈ hand, c.Distinct) {r : Outcome (Collection α)}
    (hr : ∀ c, r = .ok c → c.Distinct) : ∀ c ∈ (added hand r).1, c.Distinct := by
  cases r with
  | error e => exact h
  | ok made => exact List.forall_mem_append.mpr ⟨h, List.forall_mem_singleton.mpr (hr made rfl)⟩

/-- Each thing that is done leaves collections with distinct identities. -/
theorem Deed.on_distinct (h : ∀ c ∈ hand, c.Distinct) (deed : Deed α) : ∀ c ∈ (deed.on hand).1, c.Distinct := by
  cases deed with
  | make items => exact added_distinct h fun c hc => ofItems_distinct hc
  | change place what =>
    cases hplace : hand[place]? with
    | none =>
      rw [on, hplace]
      exact h
    | some c =>
      rw [on_change hplace]
      intro d hd
      rcases List.mem_or_eq_of_mem_set hd with hd | rfl
      · exact h d hd
      · exact what.on_distinct (h c (List.mem_of_getElem? hplace))
  | search place what =>
    cases hplace : hand[place]? with
    | none =>
      rw [on, hplace]
      exact h
    | some c =>
      rw [on_search hplace]
      exact added_distinct h fun d hd => (h c (List.mem_of_getElem? hplace)).of_sublist (Search.on_sublist hd)

theorem after_distinct (h : ∀ c ∈ hand, c.Distinct) (deeds : List (Deed α)) : ∀ c ∈ after hand deeds, c.Distinct := by
  induction deeds generalizing hand with
  | nil => exact h
  | cons deed rest ih => exact ih (deed.on_distinct h)

end Hand

/-- **Collections have each identity once**, whatever was done with them and with what was found in them. A search
leaves them as they are and comes to a part of the collection, in its order. A change empties the collection or adds
what is offered, all of it or, if it is refused, what is offered before the first repetition. -/
theorem deeds_keep_distinct (deeds : List (Deed α)) (place : Nat) (c : Collection α)
    (h : (after [] deeds)[place]? = some c) :
    (c.items.map Element.id).Nodup ∧
      (∀ what : Search, (∃ e, (Deed.search place what).on (after [] deeds) = (after [] deeds, some e)) ∨
        ∃ found, found.items.Sublist c.items ∧
          (Deed.search place what).on (after [] deeds) = (after [] deeds ++ [found], none)) ∧
      ∀ what : Change α,
        what = .clear ∧ (Deed.change place what).on (after [] deeds) = ((after [] deeds).set place .empty, none) ∨
        New c what.offered ∧ (Deed.change place what).on (after [] deeds) =
          ((after [] deeds).set place ⟨c.items ++ what.offered⟩, none) ∨
        ∃ before a, Repeats c what.offered before a ∧ (Deed.change place what).on (after [] deeds) =
          ((after [] deeds).set place ⟨c.items ++ before⟩, some (.duplicateElement (Element.label a))) := by
  have hnone : ∀ c ∈ ([] : List (Collection α)), c.Distinct := fun c hc => by cases hc
  refine ⟨after_distinct hnone deeds c (List.mem_of_getElem? h), fun what => ?_, fun what => ?_⟩
  · rw [Deed.on_search h]
    cases hwhat : what.on c with
    | error e => exact .inl ⟨e, rfl⟩
    | ok found => exact .inr ⟨found, Search.on_sublist hwhat, rfl⟩
  · rw [Deed.on_change h]
    rcases Change.on_cases c what with ⟨hclear, hon⟩ | ⟨hnew, hon⟩ | ⟨before, a, hrepeats, hon⟩
    · exact .inl ⟨hclear, by rw [hon]⟩
    · exact .inr (.inl ⟨hnew, by rw [hon]⟩)
    · exact .inr (.inr ⟨before, a, hrepeats, by rw [hon]⟩)

namespace Motion

def mass : Constant := ⟨⟨⟨1⟩, some "mass", [], []⟩, "m", "2"⟩

def speed : Constant := ⟨⟨⟨2⟩, some "speed", ["motion"], []⟩, "v", "3"⟩

def time : Constant := ⟨⟨⟨3⟩, some "time", [], []⟩, "t", "5"⟩

def length : Constant := ⟨⟨⟨4⟩, some "length", [], []⟩, "l", "7"⟩

/-- What moves is looked for, and what is found is added to. -/
def deeds : List (Deed Constant) :=
  [.make [mass, speed], .search 0 (.filter { tags := ["motion"] }), .change 1 (.push time)]

def moving : Collection Constant := ⟨[speed, time]⟩

/-- One of these is there twice, and one is moving. -/
def more : List Constant := [mass, length, mass, speed]

end Motion

theorem deeds_keep_distinct_of_found : (after [] Motion.deeds)[1]? = some Motion.moving ∧
    ∃ before a, Repeats Motion.moving Motion.more before a ∧
      (Deed.change 1 (.extend Motion.more)).on (after [] Motion.deeds) = ((after [] Motion.deeds).set 1
        ⟨Motion.moving.items ++ before⟩, some (.duplicateElement (Element.label a))) := by
  have h : (after [] Motion.deeds)[1]? = some Motion.moving := rfl
  obtain ⟨-, -, hchange⟩ := deeds_keep_distinct Motion.deeds 1 Motion.moving h
  rcases hchange (.extend Motion.more) with ⟨hclear, -⟩ | ⟨hnew, -⟩ | hrepeats
  · cases hclear
  · exact absurd hnew.distinct (by decide)
  · exact ⟨h, hrepeats⟩

end Bitpress.Collection
