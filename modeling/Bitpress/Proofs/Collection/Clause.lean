import Bitpress.Proofs.Collection.Distinct

/-!
What where clauses find.

A clause that asks for no identity keeps the elements that it accepts, one by one
(`Collection.exists_test`). So such clauses may be asked in any order, and at once if
they do not ask for two names or for two values of one key
(`Collection.whereClause_composes`). A clause that asks for an identity asks the
element that has it for all the rest (`Collection.whereClause_of_found`). Asked again
of what it has found, a clause finds the same, unless the element that it asks for was
found wanting and is not there any more (`Collection.whereClause_again`).
-/

namespace Bitpress

variable {α : Type} [Element α]

namespace WhereClause

variable {w v : WhereClause} {a : α}

/-- An element has all that a clause asks for, its identity apart. -/
structure Accepts (w : WhereClause) (a : α) : Prop where
  name : ∀ written ∈ w.name, ∃ p, Filter.namePattern written = .ok p ∧
    ∃ name ∈ Element.name? a, p.matchesSomewhere name
  tags : ∀ tag ∈ w.tags, tag ∈ Element.tags a
  metadata : ∀ e ∈ w.metadata, e.2.isNull ∨ ∃ value ∈ (Element.metadata a).valueAt? e.1, value.equal e.2
  has : ∀ key ∈ w.has, Element.hasField a key
  missing : ∀ key ∈ w.missing, ¬ Element.hasField a key

/-- The text for the name is a pattern, if there is one. -/
def Patterned (w : WhereClause) : Prop := ∀ written ∈ w.name, ∃ p, Filter.namePattern written = .ok p

/-- Two clauses do not both ask for a name, nor both for a value of one key. -/
structure Apart (w v : WhereClause) : Prop where
  name : w.name = none ∨ v.name = none
  metadata : ∀ key ∈ w.metadata.keyList, key ∉ v.metadata.keyList

/-- The clause that asks for all that two clauses ask for. -/
def joined (w v : WhereClause) : WhereClause where
  name := w.name <|> v.name
  tags := w.tags ++ v.tags
  has := w.has ++ v.has
  missing := w.missing ++ v.missing
  metadata := w.metadata ++ v.metadata

theorem Apart.name_joined (h : Apart w v) {written : String} :
    written ∈ (w.joined v).name ↔ written ∈ w.name ∨ written ∈ v.name := by
  unfold joined
  rcases h.name with hw | hv
  · simp [hw]
  · cases hw : w.name <;> simp [hv]

theorem Apart.patterned (h : Apart w v) (hw : w.Patterned) (hv : v.Patterned) : (w.joined v).Patterned :=
  fun written hname => (h.name_joined.mp hname).elim (hw written) (hv written)

theorem Apart.accepts_joined (h : Apart w v) : (w.joined v).Accepts a ↔ w.Accepts a ∧ v.Accepts a := by
  constructor
  · intro hboth
    refine ⟨⟨fun written hname => hboth.name written (h.name_joined.mpr (.inl hname)), ?_, ?_, ?_, ?_⟩,
      ⟨fun written hname => hboth.name written (h.name_joined.mpr (.inr hname)), ?_, ?_, ?_, ?_⟩⟩
    · exact (List.forall_mem_append.mp hboth.tags).1
    · exact (List.forall_mem_append.mp hboth.metadata).1
    · exact (List.forall_mem_append.mp hboth.has).1
    · exact (List.forall_mem_append.mp hboth.missing).1
    · exact (List.forall_mem_append.mp hboth.tags).2
    · exact (List.forall_mem_append.mp hboth.metadata).2
    · exact (List.forall_mem_append.mp hboth.has).2
    · exact (List.forall_mem_append.mp hboth.missing).2
  · rintro ⟨hw, hv⟩
    exact ⟨fun written hname => (h.name_joined.mp hname).elim (hw.name written) (hv.name written),
      List.forall_mem_append.mpr ⟨hw.tags, hv.tags⟩, List.forall_mem_append.mpr ⟨hw.metadata, hv.metadata⟩,
      List.forall_mem_append.mpr ⟨hw.has, hv.has⟩, List.forall_mem_append.mpr ⟨hw.missing, hv.missing⟩⟩

/-- Which identity is asked for does not matter for the rest. -/
theorem accepts_general : { w with id := none }.Accepts a ↔ w.Accepts a :=
  ⟨fun h => ⟨h.name, h.tags, h.metadata, h.has, h.missing⟩, fun h => ⟨h.name, h.tags, h.metadata, h.has, h.missing⟩⟩

end WhereClause

namespace Collection

open Outcome

variable {c found : Collection α} {w v : WhereClause} {a : α} {id : ElementId} {written : String} {e : Error}

/-! ### Clauses that ask for no identity -/

theorem whereClause_of_general (hid : w.id = none) : c.whereClause w = (do
    let pattern ← w.name.mapM Filter.namePattern
    return ⟨c.items.filter fun a => hasFields w.has w.missing a && satisfies pattern (.ofClause w) a⟩) := by
  unfold whereClause query filter
  rw [hid]
  simp only [Option.mapM_none, pure_bind, bind_assoc, Filter.ofClause, List.filter_filter]

theorem matchesName_iff {pattern : Option Pattern} (h : w.name.mapM Filter.namePattern = .ok pattern) :
    pattern.all (fun p => Element.matchesName p a) ↔ ∀ written ∈ w.name, ∃ p,
      Filter.namePattern written = .ok p ∧ ∃ name ∈ Element.name? a, p.matchesSomewhere name := by
  cases hname : w.name with
  | none =>
    rw [hname] at h
    cases h
    exact ⟨fun _ _ hwritten => (by cases hwritten), fun _ => rfl⟩
  | some written =>
    rw [hname, Option.mapM_some] at h
    obtain ⟨p, hp, h⟩ := bind_eq_ok.mp h
    cases h
    simp [hp, Element.matchesName, Option.any_eq_true]

theorem satisfies_iff {pattern : Option Pattern} (h : w.name.mapM Filter.namePattern = .ok pattern) :
    hasFields w.has w.missing a && satisfies pattern (.ofClause w) a ↔ w.Accepts a := by
  simp only [hasFields, satisfies, Filter.ofClause, Element.hasTags, Element.matchesMetadata, Bool.and_eq_true,
    matchesName_iff h, Bool.not_eq_true', List.all_eq_true, List.any_eq_false, List.contains_iff_mem, Bool.or_eq_true,
    Option.any_eq_true]
  constructor
  · rintro ⟨⟨hhas, hmissing⟩, ⟨hname, htags⟩, hmetadata⟩
    exact ⟨hname, htags, hmetadata, hhas, hmissing⟩
  · rintro ⟨hname, htags, hmetadata, hhas, hmissing⟩
    exact ⟨⟨hhas, hmissing⟩, ⟨hname, htags⟩, hmetadata⟩

/-- A clause keeps the elements that pass a test, the same test in every collection. -/
theorem exists_test (hid : w.id = none) (hw : w.Patterned) :
    ∃ test : α → Bool, (∀ a, test a ↔ w.Accepts a) ∧
      ∀ c : Collection α, c.whereClause w = .ok ⟨c.items.filter test⟩ := by
  obtain ⟨pattern, hpattern⟩ : ∃ pattern, w.name.mapM Filter.namePattern = .ok pattern := by
    cases hname : w.name with
    | none => exact ⟨none, rfl⟩
    | some written =>
      obtain ⟨p, hp⟩ := hw written hname
      exact ⟨some p, by rw [Option.mapM_some, hp]; rfl⟩
  refine ⟨_, fun a => satisfies_iff hpattern, fun c => ?_⟩
  rw [whereClause_of_general hid, hpattern]
  rfl

/-- Without an identity to be found, only a text that is no pattern is an error. -/
theorem whereClause_general_error (hid : w.id = none) (h : c.whereClause w = .error e) :
    ∃ written ∈ w.name, e = .invalidPattern written := by
  rw [whereClause_of_general hid] at h
  cases hname : w.name with
  | none =>
    rw [hname] at h
    cases h
  | some written =>
    refine ⟨written, rfl, ?_⟩
    rw [hname, Option.mapM_some] at h
    unfold Filter.namePattern at h
    cases hp : Pattern.parse? ("^(?:" ++ written ++ ")") with
    | none =>
      rw [hp] at h
      cases h
      rfl
    | some p =>
      rw [hp] at h
      cases h

/-! ### Clauses that ask for an identity -/

theorem exists_findById (ha : a ∈ c.items) : ∃ b, c.findById (Element.id a) = .ok b := by
  unfold findById
  split
  · exact ⟨_, rfl⟩
  · rename_i hnone
    exact absurd (List.find?_eq_none.mp hnone a ha) (by simp)

theorem findById_of_mem (hc : c.Distinct) (ha : a ∈ c.items) : c.findById (Element.id a) = .ok a := by
  obtain ⟨b, hb⟩ := exists_findById ha
  obtain ⟨hmem, hid⟩ := findById_mem hb
  rwa [List.inj_on_of_nodup_map hc hmem ha hid] at hb

theorem findById_of_not_mem (h : ∀ a ∈ c.items, Element.id a ≠ id) :
    c.findById id = .error (.elementNotFound id.text) := by
  have hnone : (c.items.find? fun a => Element.id a == id) = none :=
    List.find?_eq_none.mpr fun a ha => by simpa using h a ha
  unfold findById
  rw [hnone]

theorem whereClause_of_read (hid : w.id = some written) (hread : ElementId.read? (Text.trim written) = some id) :
    c.whereClause w = (do
      let base ← c.query (some id) (.ofClause w)
      return ⟨base.items.filter (hasFields w.has w.missing)⟩) := by
  unfold whereClause
  rw [hid, Option.mapM_some, hread]
  rfl

/-- The element that has the identity is asked for all the rest. -/
theorem whereClause_of_found (hid : w.id = some written) (hread : ElementId.read? (Text.trim written) = some id)
    (h : c.findById id = .ok a) : c.whereClause w = whereClause ⟨[a]⟩ { w with id := none } := by
  rw [whereClause_of_read hid hread, query, h]
  rfl

theorem whereClause_of_lost (hid : w.id = some written) (hread : ElementId.read? (Text.trim written) = some id)
    (h : ∀ a ∈ c.items, Element.id a ≠ id) : c.whereClause w = .error (.elementNotFound id.text) := by
  rw [whereClause_of_read hid hread, query, findById_of_not_mem h]
  rfl

/-- What is no identity is found nowhere. -/
theorem whereClause_of_unread (hid : w.id = some written) (hread : ElementId.read? (Text.trim written) = none) :
    c.whereClause w = .error (.elementNotFound written) := by
  unfold whereClause
  rw [hid, Option.mapM_some, hread]
  rfl

/-- That there is no such element is the error if and only if none has the identity. -/
theorem whereClause_lost_iff (hid : w.id = some written) :
    (∃ text, c.whereClause w = .error (.elementNotFound text)) ↔
      ∀ a ∈ c.items, ElementId.read? (Text.trim written) ≠ some (Element.id a) := by
  constructor
  · rintro ⟨text, h⟩ a ha hread
    obtain ⟨b, hb⟩ := exists_findById ha
    rw [whereClause_of_found hid hread hb] at h
    obtain ⟨_, _, he⟩ := whereClause_general_error rfl h
    cases he
  · intro hnone
    cases hread : ElementId.read? (Text.trim written) with
    | none => exact ⟨written, whereClause_of_unread hid hread⟩
    | some id => exact ⟨id.text, whereClause_of_lost hid hread fun a ha he => hnone a ha (he ▸ hread)⟩

theorem whereClause_one (hc : c.Distinct) (hid : w.id = some written) (hw : w.Patterned) (ha : a ∈ c.items)
    (hread : ElementId.read? (Text.trim written) = some (Element.id a)) :
    (w.Accepts a → c.whereClause w = .ok ⟨[a]⟩) ∧ (¬ w.Accepts a → c.whereClause w = .ok .empty) := by
  obtain ⟨test, htest, hone⟩ := exists_test (α := α) (w := { w with id := none }) rfl hw
  have hfound : c.whereClause w = .ok ⟨[a].filter test⟩ :=
    (whereClause_of_found hid hread (findById_of_mem hc ha)).trans (hone ⟨[a]⟩)
  have haccepts : test a ↔ w.Accepts a := (htest a).trans WhereClause.accepts_general
  refine ⟨fun h => ?_, fun h => ?_⟩
  · rw [hfound, List.filter_cons_of_pos (haccepts.mpr h)]
    rfl
  · rw [hfound, List.filter_cons_of_neg (mt haccepts.mp h)]
    rfl

/-! ### One clause after the other -/

/-- What two clauses find in either order are the elements that both accept. -/
theorem whereClause_both (hid : w.id = none) (hid' : v.id = none) (hw : w.Patterned) (hv : v.Patterned)
    (c : Collection α) : ∃ both : α → Bool, (∀ a, both a ↔ w.Accepts a ∧ v.Accepts a) ∧
      c.whereClause w >>= (·.whereClause v) = .ok ⟨c.items.filter both⟩ ∧
      c.whereClause v >>= (·.whereClause w) = .ok ⟨c.items.filter both⟩ := by
  obtain ⟨p, hp, hfirst⟩ := exists_test (α := α) hid hw
  obtain ⟨q, hq, hthen⟩ := exists_test (α := α) hid' hv
  refine ⟨fun a => p a && q a, fun a => by rw [Bool.and_eq_true, hp, hq], ?_, ?_⟩
  · rw [hfirst]
    simp only [Bool.and_comm (p _)]
    rw [← List.filter_filter]
    exact hthen _
  · rw [hthen, ← List.filter_filter]
    exact hfirst _

/-- Asked again of what it has found, a clause finds the same, unless it has found the element that it asks for
wanting: what is left does not have that element. -/
theorem whereClause_again (h : c.whereClause w = .ok found) : found.whereClause w = .ok found ∨
    found = .empty ∧ w.id ≠ none ∧ ∃ text, found.whereClause w = .error (.elementNotFound text) := by
  cases hid : w.id with
  | none =>
    rw [whereClause_of_general hid] at h ⊢
    obtain ⟨pattern, hpattern, h⟩ := bind_eq_ok.mp h
    cases h
    refine .inl (bind_eq_ok.mpr ⟨pattern, hpattern, ?_⟩)
    simp only [List.filter_filter, Bool.and_self]
    rfl
  | some written =>
    cases hread : ElementId.read? (Text.trim written) with
    | none => cases (whereClause_of_unread hid hread).symm.trans h
    | some id =>
      cases hfind : c.findById id with
      | error e =>
        rw [whereClause_of_read hid hread, query, hfind] at h
        cases h
      | ok a =>
        obtain ⟨-, rfl⟩ := findById_mem hfind
        rw [whereClause_of_found hid hread hfind] at h
        obtain hnone | hone := List.sublist_singleton.mp (whereClause_sublist h)
        · have hempty : found = .empty := congrArg Collection.mk hnone
          subst hempty
          exact .inr ⟨rfl, nofun, _, whereClause_of_lost hid hread nofun⟩
        · have hall : found = ⟨[a]⟩ := congrArg Collection.mk hone
          subst hall
          have hthere : findById ⟨[a]⟩ (Element.id a) = .ok a :=
            findById_of_mem (List.nodup_singleton _) (List.mem_singleton_self a)
          exact .inl ((whereClause_of_found hid hread hthere).trans h)

theorem whereClause_twice (hid : w.id = none) (c : Collection α) :
    c.whereClause w >>= (·.whereClause w) = c.whereClause w := by
  cases h : c.whereClause w with
  | error e => rfl
  | ok found => exact (whereClause_again h).resolve_right fun hwanting => hwanting.2.1 hid

/-- **Where clauses compose.** Two clauses that ask for no identity, and whose texts are patterns, find the same one
after the other in either order, and at once if they do not ask for two names or for two values of one key: the
elements that both accept, in their order. Asked twice, such a clause finds what it finds when it is asked once. A
clause that asks for an identity finds the element that has it if it accepts it, and else nothing; that there is no
such element is its error if and only if none has the identity. -/
theorem whereClause_composes (c : Collection α) :
    (∀ w v : WhereClause, w.id = none → v.id = none → w.Patterned → v.Patterned →
      ∃ found : Collection α, found.items.Sublist c.items ∧
        (∀ a, a ∈ found.items ↔ a ∈ c.items ∧ w.Accepts a ∧ v.Accepts a) ∧
        c.whereClause w >>= (·.whereClause v) = .ok found ∧ c.whereClause v >>= (·.whereClause w) = .ok found ∧
        (w.Apart v → c.whereClause (w.joined v) = .ok found)) ∧
      (∀ w : WhereClause, w.id = none → c.whereClause w >>= (·.whereClause w) = c.whereClause w) ∧
      ∀ w written, w.id = some written →
        ((∃ text, c.whereClause w = .error (.elementNotFound text)) ↔
          ∀ a ∈ c.items, ElementId.read? (Text.trim written) ≠ some (Element.id a)) ∧
        (c.Distinct → w.Patterned → ∀ a ∈ c.items, ElementId.read? (Text.trim written) = some (Element.id a) →
          (w.Accepts a → c.whereClause w = .ok ⟨[a]⟩) ∧ (¬ w.Accepts a → c.whereClause w = .ok .empty)) := by
  refine ⟨fun w v hid hid' hw hv => ?_, fun w hid => whereClause_twice hid c, fun w written hid => ?_⟩
  · obtain ⟨both, hboth, hthen, hback⟩ := whereClause_both hid hid' hw hv c
    refine ⟨_, List.filter_sublist, fun a => ?_, hthen, hback, fun hapart => ?_⟩
    · rw [List.mem_filter, hboth]
    · obtain ⟨test, htest, hone⟩ := exists_test (α := α) (w := w.joined v) rfl (hapart.patterned hw hv)
      have hsame : test = both := funext fun a => Bool.eq_iff_iff.mpr (by rw [htest, hapart.accepts_joined, hboth])
      rw [hone, hsame]
  · exact ⟨whereClause_lost_iff hid, fun hc hw a ha hread => whereClause_one hc hid hw ha hread⟩

namespace Motion

def all : Collection Constant := ⟨[mass, speed, time, length]⟩

def named : WhereClause := { name := some "s|t", has := ["symbol"] }

def tagged : WhereClause := { tags := ["motion"], missing := ["unit"] }

def identified : WhereClause := { id := some "00000000-0000-0000-0000-000000000002", tags := ["motion"] }

theorem named_patterned : named.Patterned := fun _ hwritten => by
  cases hwritten
  exact ⟨_, rfl⟩

end Motion

theorem whereClause_composes_of_motion :
    (Motion.named.id = none ∧ Motion.tagged.id = none ∧ Motion.named.Patterned ∧ Motion.tagged.Patterned) ∧
      (∃ found : Collection Constant,
        (∀ a, a ∈ found.items ↔ a ∈ Motion.all.items ∧ Motion.named.Accepts a ∧ Motion.tagged.Accepts a) ∧
        Motion.all.whereClause (Motion.named.joined Motion.tagged) = .ok found) ∧
      (∃ written, Motion.identified.id = some written ∧ Motion.all.Distinct ∧ Motion.identified.Patterned) ∧
      Motion.all.whereClause Motion.identified = .ok ⟨[Motion.speed]⟩ := by
  have hunnamed : ∀ {w : WhereClause}, w.name = none → w.Patterned := fun hname written hwritten => by
    cases hname.symm.trans hwritten
  have hapart : Motion.named.Apart Motion.tagged := ⟨.inr rfl, fun key hkey => by cases hkey⟩
  have hdistinct : Motion.all.Distinct := by
    unfold Distinct
    decide
  obtain ⟨htwo, -, hid⟩ := whereClause_composes Motion.all
  obtain ⟨found, -, hmem, -, -, hjoined⟩ :=
    htwo Motion.named Motion.tagged rfl rfl Motion.named_patterned (hunnamed rfl)
  obtain ⟨-, haccepted⟩ := hid Motion.identified _ rfl
  have hspeed : Motion.identified.Accepts Motion.speed :=
    ⟨fun _ h => (by cases h), by decide, fun _ h => (by cases h), fun _ h => (by cases h), fun _ h => (by cases h)⟩
  have hthere := (haccepted hdistinct (hunnamed rfl) Motion.speed (by simp [Motion.all]) (by decide)).1 hspeed
  exact ⟨⟨rfl, rfl, Motion.named_patterned, hunnamed rfl⟩, ⟨found, hmem, hjoined hapart⟩,
    ⟨_, rfl, hdistinct, hunnamed rfl⟩, hthere⟩

end Collection

end Bitpress
