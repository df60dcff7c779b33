import Bitpress.Proofs.Files
import Bitpress.Proofs.Table

/-!
Which files an operation leaves as they were.

`FileTree.Leaves` says where files may have changed. A file that is written is the
only one that changes, and it holds what was written (`write_eq_ok`); what is made
on the way to a directory is new; what is removed is a directory with all that it
holds, and no file beside it.
-/

namespace Bitpress

namespace Location

variable {p : Location}

/-- Only the first part is the root. -/
theorem parts_root (p : Location) :
    ∃ start rest, p.parts = start ++ rest ∧ (start = [] ∨ start = [.root]) ∧ .root ∉ rest := by
  have hnames : .root ∉ (Text.splitChars '/' p.text.toList).filterMap partOf := by
    intro h
    obtain ⟨piece, -, hpart⟩ := List.mem_filterMap.mp h
    unfold partOf at hpart
    split at hpart
    · cases hpart
    · split at hpart <;> cases hpart
  unfold parts
  dsimp only
  split
  · exact ⟨_, _, rfl, .inr rfl, hnames⟩
  · split
    · exact ⟨[], _, rfl, .inl rfl, fun h => (List.mem_cons.mp h).elim nofun hnames⟩
    · exact ⟨[], _, rfl, .inl rfl, hnames⟩

end Location

namespace FileTree

variable {t t' u : FileTree} {c : FileContent} {passed route : List String} {places more : List String → Prop}
  {p source dest : Location}

/-! ### Along a route -/

theorem at?_dir (entries : List (String × FileTree)) (name : String) (rest : List String) :
    (dir entries).at? (name :: rest) = (Table.valueAt? entries name).bind (·.at? rest) := by
  rw [at?]
  cases Table.valueAt? entries name <;> rfl

theorem at?_append (t : FileTree) (xs ys : List String) : t.at? (xs ++ ys) = (t.at? xs).bind (·.at? ys) := by
  induction xs generalizing t with
  | nil => rfl
  | cons name rest ih =>
    cases t with
    | file _ => rfl
    | dir entries =>
      rw [List.cons_append, at?_dir, at?_dir]
      cases Table.valueAt? entries name with
      | none => rfl
      | some inner => exact ih inner

/-- What the file at the end of a route holds, if there is one. -/
def fileAt? (t : FileTree) (route : List String) : Option FileContent :=
  match t.at? route with
  | some (.file c) => some c
  | _ => none

theorem fileAt?_eq_some : t.fileAt? route = some c ↔ t.at? route = some (.file c) := by
  unfold fileAt?
  split
  · rename_i found hfound
    rw [hfound]
    exact ⟨fun h => congrArg (some <| FileTree.file ·) (Option.some.inj h), fun h => by cases h; rfl⟩
  · rename_i hnone
    exact ⟨nofun, fun h => absurd h (hnone c)⟩

theorem fileAt?_congr (h : ∀ c, t'.at? route = some (.file c) ↔ t.at? route = some (.file c)) :
    t'.fileAt? route = t.fileAt? route := by
  refine Option.ext fun c => ?_
  rw [fileAt?_eq_some, fileAt?_eq_some]
  exact h c

/-- What lies deeper lies in a directory. -/
theorem exists_dir_of_at? {name : String} {rest : List String} (h : t.at? (route ++ name :: rest) = some u) :
    ∃ entries, t.at? route = some (.dir entries) := by
  rw [at?_append] at h
  obtain ⟨inner, hinner, h⟩ := Option.bind_eq_some_iff.mp h
  cases inner with
  | file _ => cases h
  | dir entries => exact ⟨entries, hinner⟩

/-- The directory that the end of a route lies in is there. -/
def Grounded (t : FileTree) (route : List String) : Prop :=
  route = [] ∨ ∃ entries, t.at? route.dropLast = some (.dir entries)

theorem grounded_of_at? (h : t.at? route = some u) : t.Grounded route := by
  rcases route.eq_nil_or_concat' with rfl | ⟨init, last, rfl⟩
  · exact .inl rfl
  · refine .inr ?_
    rw [List.dropLast_concat]
    exact exists_dir_of_at? h

theorem grounded_concat {name : String} {entries : List (String × FileTree)} (h : t.at? route = some (.dir entries)) :
    t.Grounded (route ++ [name]) := .inr ⟨entries, by rw [List.dropLast_concat]; exact h⟩

theorem follow_grounded {parts : List Location.Part} (hpassed : t.Grounded passed.reverse)
    (h : t.follow passed parts = .ok route) : t.Grounded route := by
  induction parts generalizing passed with
  | nil =>
    cases h
    exact hpassed
  | cons part rest ih =>
    cases part with
    | root => exact ih (.inl rfl) h
    | current => exact ih hpassed h
    | parent =>
      unfold follow at h
      split at h
      · cases h
      · cases h
      · rename_i entries hhere
        refine ih ?_ h
        cases passed with
        | nil => exact .inl rfl
        | cons s rest =>
          rw [List.reverse_cons] at hhere
          obtain ⟨outer, houter⟩ := exists_dir_of_at? hhere
          exact grounded_of_at? houter
    | name s =>
      rw [follow] at h
      split at h
      · cases h
      · cases h
      · rename_i entries hhere
        refine ih ?_ h
        rw [List.reverse_cons]
        exact grounded_concat hhere

theorem follow_eq {parts : List Location.Part} (hroot : .root ∉ parts) (h : t.follow passed parts = .ok route) :
    route = Location.resolveParts passed parts := by
  induction parts generalizing passed with
  | nil =>
    cases h
    rfl
  | cons part rest ih =>
    obtain ⟨hpart, hrest⟩ := List.ne_and_not_mem_of_not_mem_cons hroot
    cases part with
    | root => exact absurd rfl hpart
    | current => exact ih hrest h
    | parent | name =>
      unfold follow at h
      split at h
      · cases h
      · cases h
      · exact ih hrest h

/-- A location leads along its route, by names and from directory to directory. -/
theorem routeTo_eq_ok (h : t.routeTo p = .ok route) :
    route = p.route ∧ t.Grounded route ∧ ∀ s ∈ route, Location.IsName s := by
  have hfollow := follow_of_routeTo h
  refine ⟨?_, follow_grounded (.inl rfl) hfollow,
    follow_isName (fun s hs => by cases hs) (fun s hs => Location.isName_of_mem_parts hs) hfollow⟩
  obtain ⟨start, rest, hparts, hstart, hroot⟩ := p.parts_root
  rw [hparts] at hfollow
  unfold Location.route
  rw [hparts]
  rcases hstart with rfl | rfl
  · exact follow_eq hroot hfollow
  · show route = Location.resolveParts [] rest
    exact follow_eq hroot hfollow

theorem get_eq_ok (h : t.get p = .ok u) : t.at? p.route = some u := by
  obtain ⟨route, hroute, h⟩ := Outcome.bind_eq_ok.mp h
  obtain ⟨rfl, -⟩ := routeTo_eq_ok hroute
  split at h
  · rename_i found hfound
    cases h
    exact hfound
  · cases h

theorem content_eq_ok (h : t.content p = .ok c) : t.fileAt? p.route = some c := by
  obtain ⟨found, hget, h⟩ := Outcome.bind_eq_ok.mp h
  cases found with
  | dir _ => cases h
  | file _ =>
    cases h
    exact fileAt?_eq_some.mpr (get_eq_ok hget)

/-! ### Names -/

/-- What stands in the directories of a tree stands there under names. -/
inductive Named : FileTree → Prop
  | file (c : FileContent) : Named (.file c)
  | dir {entries : List (String × FileTree)} (names : ∀ e ∈ entries, Location.IsName e.1)
      (inner : ∀ e ∈ entries, Named e.2) : Named (.dir entries)

theorem Named.empty : empty.Named := .dir (fun _ h => by cases h) fun _ h => by cases h

theorem named_dir {entries : List (String × FileTree)} :
    (dir entries).Named ↔ ∀ e ∈ entries, Location.IsName e.1 ∧ e.2.Named := by
  refine ⟨fun h => ?_, fun h => .dir (fun e he => (h e he).1) fun e he => (h e he).2⟩
  cases h with
  | dir names inner => exact fun e he => ⟨names e he, inner e he⟩

theorem Named.at? (ht : t.Named) (h : t.at? route = some u) : u.Named := by
  induction route generalizing t with
  | nil =>
    cases h
    exact ht
  | cons name rest ih =>
    cases t with
    | file _ => cases h
    | dir entries =>
      rw [at?_dir] at h
      obtain ⟨inner, hinner, h⟩ := Option.bind_eq_some_iff.mp h
      exact ih (named_dir.mp ht _ (Table.mem_of_valueAt? hinner)).2 h

theorem named_put {entries : List (String × FileTree)} {name : String} {new : FileTree} (h : (dir entries).Named)
    (hname : Location.IsName name) (hnew : new.Named) : (dir (Table.put entries name new)).Named := by
  refine named_dir.mpr fun e he => ?_
  rcases Table.mem_put he with he | rfl
  · exact named_dir.mp h e he
  · exact ⟨hname, hnew⟩

theorem Named.changeAt {change : Option FileTree → Option FileTree} (ht : t.Named)
    (hroute : ∀ s ∈ route, Location.IsName s) (hchange : ∀ old new, change old = some new → new.Named) :
    (t.changeAt change route).Named := by
  induction route generalizing t with
  | nil =>
    rw [FileTree.changeAt]
    cases hnew : change (some t) with
    | none => exact ht
    | some new => exact hchange _ new hnew
  | cons name rest ih =>
    obtain ⟨hname, hrest⟩ := List.forall_mem_cons.mp hroute
    cases t with
    | file c => cases rest <;> exact .file c
    | dir entries =>
      cases rest with
      | nil =>
        rw [FileTree.changeAt]
        split
        · rename_i new hnew
          exact named_put ht hname (hchange _ new hnew)
        · exact named_dir.mpr fun e he => named_dir.mp ht e (Table.mem_of_mem_without he)
      | cons next rest =>
        rw [FileTree.changeAt]
        split
        · rename_i inner hinner
          exact named_put ht hname (ih (named_dir.mp ht _ (Table.mem_of_valueAt? hinner)).2 hrest)
        · exact ht

/-- The files of a directory have names. -/
theorem Named.fileNames (ht : t.Named) (p : Location) : ∀ name ∈ t.fileNames p, Location.IsName name := by
  intro name hname
  unfold FileTree.fileNames at hname
  split at hname
  · rename_i entries hget
    obtain ⟨e, he, rfl⟩ := List.mem_map.mp hname
    exact (named_dir.mp (ht.at? (get_eq_ok hget)) e (List.mem_filter.mp he).1).1
  · cases hname

/-! ### What a change leaves -/

/-- The files are the same, except at some places, and they have names if they had. -/
structure Leaves (places : List String → Prop) (t t' : FileTree) : Prop where
  same : ∀ route, ¬ places route → t'.fileAt? route = t.fileAt? route
  named : t.Named → t'.Named

theorem Leaves.refl (places : List String → Prop) (t : FileTree) : Leaves places t t := ⟨fun _ _ => rfl, id⟩

theorem Leaves.trans (h : Leaves places t t') (h' : Leaves places t' u) : Leaves places t u where
  same route hroute := (h'.same route hroute).trans (h.same route hroute)
  named ht := h'.named (h.named ht)

theorem Leaves.mono (h : Leaves places t t') (hmore : ∀ route, places route → more route) : Leaves more t t' where
  same route hroute := h.same route fun hplace => hroute (hmore route hplace)
  named := h.named

/-- A directory leads elsewhere as before when something is put into it or taken from it. -/
theorem at?_put_of_ne (entries : List (String × FileTree)) (new : FileTree) {name name' : String} (h : name' ≠ name)
    (rest : List String) :
    (dir (Table.put entries name new)).at? (name' :: rest) = (dir entries).at? (name' :: rest) := by
  rw [at?_dir, at?_dir, Table.valueAt?_put_of_ne _ _ h]

theorem at?_put_self (entries : List (String × FileTree)) (new : FileTree) (name : String) (rest : List String) :
    (dir (Table.put entries name new)).at? (name :: rest) = new.at? rest := by
  rw [at?_dir, Table.valueAt?_put_self]
  rfl

theorem at?_without_of_ne (entries : List (String × FileTree)) {name name' : String} (h : name' ≠ name)
    (rest : List String) :
    (dir (Table.without entries name)).at? (name' :: rest) = (dir entries).at? (name' :: rest) := by
  rw [at?_dir, at?_dir, Table.valueAt?_without_of_ne _ h]

/-- A change at the end of a route leaves the files that do not lie there. -/
theorem changeAt_same (change : Option FileTree → Option FileTree) (t : FileTree) {other : List String}
    (hother : ¬ route <+: other) :
    (t.changeAt change route).at? other = some (.file c) ↔ t.at? other = some (.file c) := by
  induction route generalizing t other with
  | nil => exact absurd List.nil_prefix hother
  | cons name rest ih =>
    cases t with
    | file _ => cases rest <;> exact .rfl
    | dir entries =>
      cases other with
      | nil =>
        refine iff_of_false (fun h => ?_) nofun
        cases rest <;> rw [changeAt] at h <;> split at h <;> cases h
      | cons name' other =>
        cases rest with
        | nil =>
          have hname : name' ≠ name := fun he => hother (he ▸ List.prefix_append [name'] other)
          rw [changeAt]
          split
          · rw [at?_put_of_ne entries _ hname]
          · rw [at?_without_of_ne entries hname]
        | cons next rest =>
          rw [changeAt]
          split
          · rename_i inner hinner
            by_cases hname : name' = name
            · subst hname
              have hnot : ¬ next :: rest <+: other := fun h => hother (List.cons_prefix_cons.mpr ⟨rfl, h⟩)
              rw [at?_put_self, at?_dir, hinner]
              exact ih inner hnot
            · rw [at?_put_of_ne entries _ hname]
          · exact .rfl

/-- What lies at the end of a route after something new was put there, or below it, is new or was there. -/
theorem at?_changeAt_within {new : FileTree} {rest : List String}
    (h : (t.changeAt (fun _ => some new) route).at? (route ++ rest) = some u) :
    new.at? rest = some u ∨ t.at? (route ++ rest) = some u := by
  induction route generalizing t with
  | nil => exact .inl h
  | cons name route ih =>
    cases t with
    | file _ => cases route <;> exact .inr h
    | dir entries =>
      rw [List.cons_append] at h ⊢
      cases route with
      | nil => exact .inl ((at?_put_self entries new name rest).symm.trans h)
      | cons next route =>
        rw [changeAt] at h
        split at h
        · rename_i inner hinner
          rw [at?_put_self] at h
          rw [at?_dir, hinner]
          exact ih h
        · exact .inr h

theorem at?_changeAt (new : FileTree) (h : t.Grounded route) :
    (t.changeAt (fun _ => some new) route).at? route = some new := by
  induction route generalizing t with
  | nil => rfl
  | cons name rest ih =>
    obtain ⟨entries, hparent⟩ := h.resolve_left (List.cons_ne_nil _ _)
    cases rest with
    | nil =>
      cases hparent
      exact at?_put_self entries new name []
    | cons next rest =>
      rw [List.dropLast_cons_cons] at hparent
      cases t with
      | file _ => cases hparent
      | dir outer =>
        rw [at?_dir] at hparent
        obtain ⟨inner, hinner, hparent⟩ := Option.bind_eq_some_iff.mp hparent
        rw [changeAt, hinner]
        exact (at?_put_self outer _ name _).trans (ih (.inr ⟨entries, hparent⟩))

/-! ### Operations -/

/-- Writing a file changes this file only. -/
theorem write_eq_ok (h : t.write p c = .ok t') : t'.fileAt? p.route = some c ∧ Leaves (· = p.route) t t' := by
  obtain ⟨route, hroute, h⟩ := Outcome.bind_eq_ok.mp h
  obtain ⟨rfl, hgrounded, hnames⟩ := routeTo_eq_ok hroute
  split at h
  · cases h
  · rename_i hdir
    split at h
    · cases h
    · cases h
      refine ⟨fileAt?_eq_some.mpr (at?_changeAt _ hgrounded), fun other hother => fileAt?_congr fun c' => ?_,
        fun ht => ht.changeAt hnames fun _ _ he => ?_⟩
      · by_cases hbelow : p.route <+: other
        · -- Below a file lies nothing.
          obtain ⟨rest, rfl⟩ := hbelow
          have hdeeper : rest ≠ [] := fun he => hother (he ▸ List.append_nil _)
          obtain ⟨name, rest, rfl⟩ := List.exists_cons_of_ne_nil hdeeper
          have hnone : t.at? (p.route ++ name :: rest) ≠ some (.file c') := fun h =>
            have ⟨entries, hhere⟩ := exists_dir_of_at? h
            hdir entries hhere
          exact iff_of_false (fun h => (at?_changeAt_within h).elim nofun hnone) hnone
        · exact changeAt_same _ t hbelow
      · cases he
        exact .file c

theorem makeDirs_leaves {parts : List Location.Part} (hpassed : ∀ s ∈ passed, Location.IsName s)
    (hparts : ∀ s, .name s ∈ parts → Location.IsName s) (h : t.makeDirs passed parts = .ok t') :
    Leaves (fun _ => False) t t' := by
  induction parts generalizing t passed with
  | nil =>
    cases h
    exact .refl _ _
  | cons part rest ih =>
    have hrest : ∀ s, .name s ∈ rest → Location.IsName s := fun s hs => hparts s (List.mem_cons_of_mem _ hs)
    cases part with
    | root => exact ih (fun s hs => by cases hs) hrest h
    | current => exact ih hpassed hrest h
    | parent => exact ih (fun s hs => hpassed s (List.mem_of_mem_drop hs)) hrest h
    | name s =>
      have hnames : ∀ s' ∈ s :: passed, Location.IsName s' :=
        List.forall_mem_cons.mpr ⟨hparts s (List.mem_cons_self ..), hpassed⟩
      unfold makeDirs at h
      dsimp only at h
      split at h
      · exact ih hnames hrest h
      · split at h <;> cases h
      · rename_i hnone
        refine .trans ⟨fun other _ => fileAt?_congr fun c => ?_, fun ht => ?_⟩ (ih hnames hrest h)
        · by_cases hbelow : (s :: passed).reverse <+: other
          · -- What is made is a directory, and nothing was there before.
            obtain ⟨rest, rfl⟩ := hbelow
            have hbefore : t.at? ((s :: passed).reverse ++ rest) ≠ some (.file c) := fun h => by
              rw [at?_append, hnone] at h
              cases h
            exact iff_of_false (fun h => (at?_changeAt_within h).elim (by cases rest <;> nofun) hbefore) hbefore
          · exact changeAt_same _ t hbelow
        · refine ht.changeAt (fun s' hs => hnames s' (List.mem_reverse.mp hs)) fun _ _ he => ?_
          cases he
          exact .empty

/-- Making a directory changes no file. -/
theorem makeDirectory_leaves (h : t.makeDirectory p = .ok t') : Leaves (fun _ => False) t t' :=
  makeDirs_leaves (fun s hs => by cases hs) (fun _ hs => Location.isName_of_mem_parts hs) h

theorem makeParent_leaves (h : t.makeParent p = .ok t') : Leaves (fun _ => False) t t' := by
  unfold makeParent at h
  split at h
  · exact makeDirectory_leaves h
  · cases h
    exact .refl _ _

/-- Removing a directory changes no file that does not lie in it. -/
theorem remove_leaves (h : t.remove p = .ok t') : Leaves (p.route <+: ·) t t' := by
  obtain ⟨route, hroute, h⟩ := Outcome.bind_eq_ok.mp h
  obtain ⟨rfl, -, hnames⟩ := routeTo_eq_ok hroute
  split at h
  · cases h
    exact ⟨fun _ hother => fileAt?_congr fun _ => changeAt_same _ t hother, fun ht => ht.changeAt hnames nofun⟩
  · cases h

/-- Copying changes the copy only, which then holds what the file holds. -/
theorem copy_eq_ok (h : t.copy source dest = .ok t') :
    Leaves (· = dest.route) t t' ∧ ∃ c, t.fileAt? source.route = some c ∧
      (source.route ≠ dest.route → t'.fileAt? dest.route = some c) := by
  obtain ⟨found, hget, h⟩ := Outcome.bind_eq_ok.mp h
  cases found with
  | dir _ => cases h
  | file c =>
    obtain ⟨emptied, hemptied, h⟩ := Outcome.bind_eq_ok.mp h
    obtain ⟨read, hread, h⟩ := Outcome.bind_eq_ok.mp h
    obtain ⟨hwritten, hleaves⟩ := write_eq_ok h
    have hfile : t.fileAt? source.route = some c := fileAt?_eq_some.mpr (get_eq_ok hget)
    have hfirst := (write_eq_ok hemptied).2
    refine ⟨hfirst.trans hleaves, c, hfile, fun hne => ?_⟩
    have hsame := (content_eq_ok hread).symm.trans ((hfirst.same source.route hne).trans hfile)
    cases hsame
    exact hwritten

end FileTree

end Bitpress
