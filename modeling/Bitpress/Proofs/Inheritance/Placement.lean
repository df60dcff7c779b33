import Bitpress.Proofs.Inheritance.Cycle
import Bitpress.Proofs.Lines
import Mathlib.Data.List.Perm.Subperm

/-!
The file that a base is in does not matter.

A family of targets, each of which extends others of the family, is spread over
files; a target writes a base in its own file by its name and any other one with
the file (`Placement.declare`). What keeps two resolutions of the same family in
step, each with a placement of its own, is that their trails hold targets of the
same names in the same order (`Spelled`). Then they give the same or fail alike
(`fold_placed`), whatever was resolved before (`specOf_of_placements`).
-/

namespace Bitpress

/-! ### References -/

namespace Inheritance

/-- A name without colons, and without white space around it. -/
structure PlainName (name : String) : Prop where
  plain : ':' ∉ name.toList
  trimmed : Text.trim name = name

theorem splitReference_name {name : String} (h : PlainName name) : splitReference name = (none, name) := by
  unfold splitReference
  rw [Text.cutAt?_of_not_mem (by simpa using h.plain), h.trimmed]

theorem splitReference_file {file name : String} (hfile : Text.trim file = file) (h : PlainName name) :
    splitReference (file ++ "::" ++ name) = (some file, name) := by
  have hreverse : (file ++ "::" ++ name).toList.reverse =
      name.toList.reverse ++ ([':', ':'] ++ file.toList.reverse) := by
    simp [String.toList_append]
  unfold splitReference
  rw [hreverse, Text.cutAt?_append (by simpa using h.plain)]
  simp only [List.reverse_reverse, String.ofList_toList, hfile, h.trimmed]

end Inheritance

/-! ### Outcomes that differ in files only -/

/-- The same error, or cycles of targets with the same names; not want of room. -/
structure Error.Alike (e e' : Error) : Prop where
  room : e ≠ .depthExceeded
  same : e = e' ∨ ∃ chain chain', e = .reference (.targetCycle chain) ∧ e' = .reference (.targetCycle chain') ∧
    chain.map TargetKey.name = chain'.map TargetKey.name

theorem Error.Alike.right_room {e e' : Error} (h : e.Alike e') : e' ≠ .depthExceeded := by
  rcases h.same with rfl | ⟨_, _, _, rfl, _⟩
  · exact h.room
  · simp

namespace Outcome

variable {α β : Type}

/-- Both give the same, or both fail alike. -/
def Alike (x y : Outcome α) : Prop :=
  (∃ a, x = .ok a ∧ y = .ok a) ∨ ∃ e e', x = .error e ∧ y = .error e' ∧ e.Alike e'

theorem Alike.ok (a : α) : Alike (.ok a) (.ok a) := .inl ⟨a, rfl, rfl⟩

theorem Alike.same {x : Outcome α} (h : Fails Error.Plain x) : Alike x x := by
  cases x with
  | ok a => exact .ok a
  | error e => exact .inr ⟨e, e, rfl, rfl, (h e rfl).other.1, .inl rfl⟩

theorem Alike.bind {x y : Outcome α} {f g : α → Outcome β} (h : Alike x y) (hf : ∀ a, Alike (f a) (g a)) :
    Alike (x >>= f) (y >>= g) := by
  rcases h with ⟨a, rfl, rfl⟩ | ⟨e, e', rfl, rfl, he⟩
  · exact hf a
  · exact .inr ⟨e, e', rfl, rfl, he⟩

theorem Alike.map {x y : Outcome α} (h : Alike x y) (f : α → β) : Alike (f <$> x) (f <$> y) := by
  simp only [map_eq_pure_bind]
  exact h.bind fun a => .ok (f a)

theorem Alike.foldlM {f g : β → α → Outcome β} {xs : List α} (h : ∀ x ∈ xs, ∀ b, Alike (f b x) (g b x)) (b : β) :
    Alike (xs.foldlM f b) (xs.foldlM g b) := by
  induction xs generalizing b with
  | nil => exact .ok b
  | cons x rest ih =>
    obtain ⟨hfirst, hrest⟩ := List.forall_mem_cons.mp h
    exact (hfirst b).bind fun b => ih hrest b

theorem Alike.eq_ok {x y : Outcome α} {a : α} (h : Alike x y) (hx : x = .ok a) : y = .ok a := by
  rcases h with ⟨b, rfl, rfl⟩ | ⟨e, e', rfl, rfl, _⟩
  · exact hx
  · cases hx

theorem Alike.left_room {x y : Outcome α} (h : Alike x y) : x ≠ .error .depthExceeded := by
  rcases h with ⟨a, rfl, rfl⟩ | ⟨e, e', rfl, rfl, he⟩
  · simp
  · exact fun h => he.room (Except.error.inj h)

theorem Alike.right_room {x y : Outcome α} (h : Alike x y) : y ≠ .error .depthExceeded := by
  rcases h with ⟨a, rfl, rfl⟩ | ⟨e, e', rfl, rfl, he⟩
  · simp
  · exact fun h => he.right_room (Except.error.inj h)

end Outcome

/-! ### Families of targets in files -/

def Extends.map (f : String → String) : Extends → Extends
  | .one base => .one (f base)
  | .many bases => .many (bases.map f)

namespace Inheritance

open Outcome

/-- Targets that write the targets that they extend by their names. -/
structure Family (targets : List TargetDecl) : Prop where
  named : ∀ d ∈ targets, ∃ name, d.name = some name ∧ PlainName name
  closed : ∀ d ∈ targets, ∀ base ∈ d.bases, ∃ b ∈ targets, b.name = some base

/-- The files of targets. What tells targets of a family apart is their names. -/
abbrev Placement := String → Location

namespace Placement

def file (place : Placement) (d : TargetDecl) : Location := place (d.name.getD "")

/-- How a base is written in a file: by its name if it is there too, else with its own file. -/
def write (place : Placement) (file : Location) (base : String) : String :=
  if (place base).same file then base else (place base).text ++ "::" ++ base

/-- A target of a family as it is declared in its file. -/
def declare (place : Placement) (d : TargetDecl) : TargetDecl :=
  { d with extends? := d.extends?.map (Extends.map (place.write (place.file d))) }

/-- A catalogue has the targets of a family in their files, and finds each of these files when another one
names it. -/
structure Holds (place : Placement) (targets : List TargetDecl) (c : Catalogue) : Prop where
  trimmed : ∀ d ∈ targets, Text.trim (place.file d).text = (place.file d).text
  declared : ∀ d ∈ targets, Declared c (place.file d) (place.declare d)
  located : ∀ d ∈ targets, ∀ b ∈ targets, ∃ p, c.locate (place.file d) (place.file b).text = .ok p ∧
    p.parts = (place.file b).parts

def identity (place : Placement) (name : String) : List Location.Part × String := ((place name).parts, name)

/-- A trail of targets of some names. -/
def Spelled (place : Placement) (trail : List TargetKey) (names : List String) : Prop :=
  trail.map TargetKey.identity = names.map place.identity

variable {place : Placement} {targets : List TargetDecl} {c : Catalogue} {d b : TargetDecl} {name : String}
  {file : Location} {key : TargetKey} {trail : List TargetKey} {names : List String}

theorem file_eq (place : Placement) (hname : d.name = some name) : place.file d = place name := by
  unfold Placement.file
  rw [hname, Option.getD_some]

theorem bases_declare (place : Placement) (d : TargetDecl) :
    (place.declare d).bases = d.bases.map (place.write (place.file d)) := by
  unfold declare TargetDecl.bases
  cases d.extends? with
  | none => rfl
  | some bases => cases bases <;> rfl

/-- However a base is written, the same target is meant. -/
theorem keyOf_write (h : place.Holds targets c) (hd : d ∈ targets) (hb : b ∈ targets) (hname : b.name = some name)
    (hplain : PlainName name) (hfile : (place.file d).parts = file.parts) :
    ∃ key, c.keyOf file (place.write (place.file d) name) = .ok key ∧ key.identity = place.identity name := by
  have hplace := file_eq place hname
  unfold Catalogue.keyOf
  by_cases hsame : (place name).same (place.file d) = true
  · rw [write, if_pos hsame, splitReference_name hplain]
    refine ⟨⟨file, name⟩, rfl, ?_⟩
    simp only [Location.same, beq_iff_eq] at hsame
    simp only [TargetKey.identity, identity, hsame, hfile]
  · obtain ⟨p, hp, hparts⟩ := h.located d hd b hb
    obtain ⟨q, hq, hqparts⟩ := c.locate_congr hfile hp
    rw [write, if_neg hsame, splitReference_file (hplace ▸ h.trimmed b hb) hplain]
    rw [hplace] at hq hparts
    refine ⟨⟨q, name⟩, by simp only [hq]; rfl, ?_⟩
    simp only [TargetKey.identity, identity, hqparts, hparts]

theorem declaration_of_identity (h : place.Holds targets c) (hb : b ∈ targets) (hname : b.name = some name)
    (hkey : key.identity = place.identity name) :
    c.declaration key.file key.name = .ok (some (place.declare b)) := by
  have hread : c.declaration key.file key.name = c.declaration (place name) name :=
    Catalogue.declaration_congr_key (show key.identity = TargetKey.identity ⟨place name, name⟩ from hkey)
  rw [hread, ← file_eq place hname]
  exact h.declared b hb name hname

/-! ### Two resolutions in step -/

theorem Spelled.append (h : place.Spelled trail names) (hkey : key.identity = place.identity name) :
    place.Spelled (trail ++ [key]) (names ++ [name]) := by
  unfold Spelled at h ⊢
  rw [List.map_append, List.map_append, h, List.map_singleton, List.map_singleton, hkey]

theorem Spelled.start (place : Placement) (hname : d.name = some name) :
    place.Spelled (Catalogue.start (place.file d) (place.declare d)) [name] := by
  unfold Catalogue.start
  rw [show (place.declare d).name = some name from hname, file_eq place hname]
  rfl

theorem Spelled.map_name (h : place.Spelled trail names) : trail.map TargetKey.name = names := by
  have hsecond := congrArg (List.map Prod.snd) h
  rwa [List.map_map, List.map_map, show Prod.snd ∘ place.identity = id from rfl, List.map_id] at hsecond

theorem Spelled.map_name_drop (h : place.Spelled trail names) (hkey : key.identity = place.identity name) (i : Nat) :
    (trail.drop i ++ [key]).map TargetKey.name = names.drop i ++ [name] := by
  rw [List.map_append, List.map_drop, h.map_name, List.map_singleton, show key.name = name from congrArg Prod.snd hkey]

/-- Whether a target is on the trail already, and where, shows in the names. -/
theorem enter_spelled (h : place.Spelled trail names) (hkey : key.identity = place.identity name) :
    enter trail key = match names.findIdx? (· == name) with
      | some i => .error (.reference (.targetCycle (trail.drop i ++ [key])))
      | none => .ok (trail ++ [key]) := by
  have hleft : (trail.map TargetKey.identity).findIdx? (· == place.identity name) =
      trail.findIdx? fun k => k.same key := by
    rw [List.findIdx?_map]
    congr 1
    funext k
    rw [Bool.eq_iff_iff, TargetKey.same_iff, hkey]
    exact beq_iff_eq
  have hright : (names.map place.identity).findIdx? (· == place.identity name) = names.findIdx? (· == name) := by
    rw [List.findIdx?_map]
    congr 1
    funext n
    rw [Bool.eq_iff_iff, beq_iff_eq]
    exact beq_iff_eq.trans ⟨fun he => congrArg Prod.snd he, fun he => congrArg place.identity he⟩
  have hfind : (trail.findIdx? fun k => k.same key) = names.findIdx? (· == name) := by
    rw [← hleft, show trail.map TargetKey.identity = names.map place.identity from h, hright]
  unfold enter
  cases hname : names.findIdx? (· == name) with
  | none => simp only [hfind, hname]
  | some i => simp only [hfind, hname]

/-- A base of a placed target: a cycle if its name is on the trail, else the target of the family that has
the name, in its file. -/
theorem baseWith_write (h : place.Holds targets c) (hd : d ∈ targets) (hb : b ∈ targets)
    (hname : b.name = some name) (hplain : PlainName name) (hfile : (place.file d).parts = file.parts)
    (ht : place.Spelled trail names) (room : Nat) :
    ∃ key, key.identity = place.identity name ∧
      c.baseWith enter (c.load enter (room + 1) (place.declare d)) trail file (place.write (place.file d) name) =
        match names.findIdx? (· == name) with
        | some i => .error (.reference (.targetCycle (trail.drop i ++ [key])))
        | none => do return ⟨← c.fold room (trail ++ [key]) key.file (place.declare b), b.overrides⟩ := by
  obtain ⟨key, hkey, hid⟩ := keyOf_write h hd hb hname hplain hfile
  refine ⟨key, hid, ?_⟩
  simp only [Catalogue.baseWith, hkey, bind, Except.bind, enter_spelled ht hid]
  cases names.findIdx? (· == name) with
  | some i => rfl
  | none =>
    simp only [Catalogue.load, Catalogue.declared, declaration_of_identity h hb hname hid]
    rfl

end Placement

open Placement

section TwoPlacements
variable {place place' : Placement} {targets : List TargetDecl} {c c' : Catalogue} {d : TargetDecl}
  {room room' : Nat} {trail trail' : List TargetKey} {names : List String} {file file' : Location}

/-- Names of targets of a family, each once, are no more than there are targets. -/
theorem length_names_le (hdistinct : names.Nodup) (hnames : ∀ name ∈ names, ∃ d ∈ targets, d.name = some name) :
    names.length ≤ targets.length := by
  have hsub : names.map some ⊆ targets.map TargetDecl.name := by
    intro x hx
    obtain ⟨name, hname, rfl⟩ := List.mem_map.mp hx
    obtain ⟨d, hd, he⟩ := hnames name hname
    exact List.mem_map.mpr ⟨d, hd, he⟩
  have hlength := (List.subperm_of_subset (hdistinct.map (Option.some_injective _)) hsub).length_le
  rwa [List.length_map, List.length_map] at hlength

/-- Each step down puts the same name on both trails, so the two run in step until both find the cycle or
there are no names left. -/
theorem fold_placed (hf : Family targets) (h : place.Holds targets c) (h' : place'.Holds targets c')
    (hd : d ∈ targets) (hfile : (place.file d).parts = file.parts) (hfile' : (place'.file d).parts = file'.parts)
    (ht : place.Spelled trail names) (ht' : place'.Spelled trail' names) (hdistinct : names.Nodup)
    (hnames : ∀ name ∈ names, ∃ d ∈ targets, d.name = some name)
    (hroom : targets.length < room + names.length) (hroom' : targets.length < room' + names.length) :
    Alike (c.fold room trail file (place.declare d)) (c'.fold room' trail' file' (place'.declare d)) := by
  induction room generalizing room' trail trail' names file file' d with
  | zero => exact absurd (length_names_le hdistinct hnames) (by omega)
  | succ room ih =>
    cases room' with
    | zero => exact absurd (length_names_le hdistinct hnames) (by omega)
    | succ room' =>
      rw [Catalogue.fold, Catalogue.fold, Catalogue.foldWith_eq, Catalogue.foldWith_eq, mergeAll, mergeAll,
        bases_declare, bases_declare, List.foldlM_map, List.foldlM_map]
      refine Alike.bind (Alike.foldlM (fun base hbase tree => ?_) _) fun tree => .same (mergeOwn_fails d tree)
      refine Alike.bind ?_ fun b => .same (mergeBase_fails tree b)
      obtain ⟨b, hb, hname⟩ := hf.closed d hd base hbase
      obtain ⟨_, hname', hplain⟩ := hf.named b hb
      cases hname.symm.trans hname'
      obtain ⟨key, hid, hbase⟩ := baseWith_write h hd hb hname hplain hfile ht room
      obtain ⟨key', hid', hbase'⟩ := baseWith_write h' hd hb hname hplain hfile' ht' room'
      rw [hbase, hbase']
      cases hfind : names.findIdx? (· == base) with
      | some i =>
        refine .inr ⟨_, _, rfl, rfl, by simp, .inr ⟨_, _, rfl, rfl, ?_⟩⟩
        rw [ht.map_name_drop hid, ht'.map_name_drop hid']
      | none =>
        have hnew : base ∉ names := fun hmem => by
          simpa using List.findIdx?_eq_none_iff.mp hfind base hmem
        refine Alike.bind (ih hb ?_ ?_ (ht.append hid) (ht'.append hid') ?_ ?_ ?_ ?_) fun t => .ok _
        · rw [file_eq place hname]
          exact (congrArg Prod.fst hid).symm
        · rw [file_eq place' hname]
          exact (congrArg Prod.fst hid').symm
        · rw [← List.concat_eq_append]
          exact .concat hnew hdistinct
        · intro name hmem
          rcases List.mem_append.mp hmem with hmem | hmem
          · exact hnames name hmem
          · cases List.mem_singleton.mp hmem
            exact ⟨b, hb, hname⟩
        · rw [List.length_append, List.length_singleton]
          omega
        · rw [List.length_append, List.length_singleton]
          omega

/-- Wherever the targets of a family are, each gives the same spec, or fails alike. -/
theorem Catalogue.specOf_placed (hf : Family targets) (h : place.Holds targets c) (h' : place'.Holds targets c')
    (hd : d ∈ targets) (hroom : targets.length ≤ room) (hroom' : targets.length ≤ room') :
    Alike (c.specOf room (place.file d) (place.declare d)) (c'.specOf room' (place'.file d) (place'.declare d)) := by
  obtain ⟨name, hname, _⟩ := hf.named d hd
  have hfold := fold_placed hf h h' hd rfl rfl (.start place hname) (.start place' hname) (List.nodup_singleton name)
    (fun n hn => List.mem_singleton.mp hn ▸ ⟨d, hd, hname⟩)
    (Nat.lt_succ_of_le hroom) (Nat.lt_succ_of_le hroom')
  exact (hfold.bind fun t => .same (OverrideDecl.applyAll_fails _ _)).map _

end TwoPlacements

section Resolvers
variable {σ σ' : Type} {c c' : Catalogue} {ready : σ → Prop} {ready' : σ' → Prop} {source : TargetSource (StateM σ)}
  {source' : TargetSource (StateM σ')} {v v' : Visit} {s : σ} {s' : σ'} {place place' : Placement}
  {targets : List TargetDecl} {d : TargetDecl} {room room' : Nat}

/-- Resolvers of the same family of targets, each with the files that it has them in, give each target the
same spec or fail for the same reason; a cycle that they report is of the same names. -/
theorem specOf_of_placements (hf : Family targets) (h : place.Holds targets c) (h' : place'.Holds targets c')
    (ha : Answers source c ready) (ha' : Answers source' c' ready') (hv : Reached source c ready v s)
    (hv' : Reached source' c' ready' v' s') (hd : d ∈ targets) (hroom : targets.length ≤ room)
    (hroom' : targets.length ≤ room') :
    Alike ((specOf source room (place.file d) (place.declare d)).at v s).1.1
      ((specOf source' room' (place'.file d) (place'.declare d)).at v' s').1.1 := by
  have halike := Catalogue.specOf_placed hf h h' hd hroom hroom'
  rwa [← (hv.fits ha (h.declared d hd) room).same trivial halike.left_room,
    ← (hv'.fits ha' (h'.declared d hd) room').same trivial halike.right_room] at halike

end Resolvers

namespace Spread

def shared : TargetDecl where
  name := some "shared"
  context := [("x", .int 1)]
  overrides := [⟨"context.x", .int 2, none⟩]

def left : TargetDecl := { name := some "left", extends? := some (.one "shared"), context := [("y", .int 3)] }

def top : TargetDecl := { name := some "top", extends? := some (.many ["left", "shared"]), dest := some "out" }

def targets : List TargetDecl := [shared, left, top]

/-- All targets in one file. -/
def together : Placement := fun _ => ⟨"a.json"⟩

/-- Each target in another file, whose name has colons too. -/
def apart : Placement := fun name => ⟨"d/" ++ name ++ "::.json"⟩

def catalogue (place : Placement) : Catalogue := .ofTargets (targets.map fun d => (place.file d, place.declare d))

theorem family : Family targets := by
  refine ⟨fun d hd => ?_, fun d hd base hbase => ?_⟩
  · simp only [targets, List.mem_cons, List.not_mem_nil, or_false] at hd
    rcases hd with rfl | rfl | rfl
    · exact ⟨"shared", rfl, by decide, by decide⟩
    · exact ⟨"left", rfl, by decide, by decide⟩
    · exact ⟨"top", rfl, by decide, by decide⟩
  · simp only [targets, List.mem_cons, List.not_mem_nil, or_false] at hd
    rcases hd with rfl | rfl | rfl
    · cases hbase
    · cases List.mem_singleton.mp hbase
      exact ⟨shared, by simp [targets], rfl⟩
    · rcases List.mem_pair.mp hbase with rfl | rfl
      · exact ⟨left, by simp [targets], rfl⟩
      · exact ⟨shared, by simp [targets], rfl⟩

theorem holds {place : Placement} (htrimmed : ∀ d ∈ targets, Text.trim (place.file d).text = (place.file d).text) :
    place.Holds targets (catalogue place) := by
  refine ⟨htrimmed, fun d hd name hname => ?_, fun _ _ _ _ => ⟨_, rfl, rfl⟩⟩
  simp only [targets, List.mem_cons, List.not_mem_nil, or_false] at hd
  rcases hd with rfl | rfl | rfl <;> cases hname <;>
    simp [catalogue, Catalogue.ofTargets, targets, declare, Placement.file, shared, left, top, Location.same]

/-- What a fresh resolver gives the last target. -/
def found (place : Placement) : Outcome TargetSpec :=
  ((specOf (catalogue place).source 3 (place.file top) (place.declare top)).at {} ()).1.1

/-- The value of `x` that it is given. -/
def x? (place : Placement) : Option String := do
  let spec ← (found place).toOption
  (← spec.context.valueAt? "x").scalarText?

end Spread

/-- Three targets in one file, and each in a file of its own. -/
theorem specOf_of_placements_spread :
    Spread.x? Spread.together = some "2" ∧ Spread.found Spread.apart = Spread.found Spread.together := by
  have hx : Spread.x? Spread.together = some "2" := by decide +kernel
  have hhere : ∀ d ∈ Spread.targets, Text.trim (Spread.together.file d).text = (Spread.together.file d).text := by
    decide +kernel
  have hthere : ∀ d ∈ Spread.targets, Text.trim (Spread.apart.file d).text = (Spread.apart.file d).text := by
    decide +kernel
  have hlast : Spread.top ∈ Spread.targets := List.mem_cons_of_mem _ (List.mem_cons_of_mem _ (List.mem_cons_self ..))
  have halike : Outcome.Alike (Spread.found Spread.together) (Spread.found Spread.apart) :=
    specOf_of_placements Spread.family (Spread.holds hhere) (Spread.holds hthere)
      (Spread.catalogue Spread.together).source_answers (Spread.catalogue Spread.apart).source_answers
      (.start (s := ()) trivial) (.start (s := ()) trivial) hlast (Nat.le_refl 3) (Nat.le_refl 3)
  obtain ⟨spec, hspec, _⟩ := Option.bind_eq_some_iff.mp hx
  have htogether := Outcome.toOption_eq_some.mp hspec
  exact ⟨hx, (halike.eq_ok htogether).trans htogether.symm⟩

end Inheritance

end Bitpress
