import Bitpress.Proofs.Import.Load

/-!
Where the documents of targets go.

A target is meant for a place: the path of a document, which is taken as it is, or
a directory, in which the document is named for the registry and the label of the
target. Two targets of a registry go to one file in few ways only (`Target.Clash`,
`Target.destination_same_iff`); what places they are meant for is decided by their
merged specs and the configuration (`Store.Reachable.get_clash_iff`). Nothing keeps
targets without names apart: in one directory, all of them have the same label.
-/

namespace Bitpress

/-! ### Two places -/

namespace Target

variable {place place' source dest dest' : Location} {label label' : String}

/-- A place that is the path of a document. -/
def IsDocument (place : Location) : Prop :=
  ∃ extension, place.extension? = some extension ∧ Text.sameLetters extension "pdf" = true

/-- A place that is taken for a directory. -/
def IsDirectory (place : Location) : Prop := place.extension? = none

instance : Decidable (IsDirectory place) := inferInstanceAs (Decidable (place.extension? = none))

/-- The document of a registry with a label in a directory. -/
def documentIn (source place : Location) (label : String) : Location :=
  place.join ⟨source.stem?.getD "" ++ "-" ++ label ++ ".pdf"⟩

/-- Why two targets of a registry have one destination, by the places that they are meant for and their labels. -/
inductive Clash (source place place' : Location) (label label' : String) : Prop
  /-- Both are meant for one and the same path. -/
  | documents (left : IsDocument place) (right : IsDocument place') (same : place.same place' = true)
  /-- The first is meant for the path of the document that the second has in its directory. -/
  | given (left : IsDocument place) (right : IsDirectory place') (same : place.same (documentIn source place' label') = true)
  /-- The second is meant for the path of the document that the first has in its directory. -/
  | taken (left : IsDirectory place) (right : IsDocument place') (same : (documentIn source place label).same place' = true)
  /-- Both go into one directory, with the same label. -/
  | directory (left : IsDirectory place) (right : IsDirectory place') (same : place.same place' = true)
    (label : label = label')
  /-- A label has a slash and leads to another directory, where both documents are one. -/
  | slash (left : IsDirectory place) (right : IsDirectory place') (slash : '/' ∈ label.toList ∨ '/' ∈ label'.toList)
      (same : (documentIn source place label).same (documentIn source place' label') = true)

theorem IsDocument.not_directory (h : IsDocument place) : ¬ IsDirectory place := by
  obtain ⟨extension, h, -⟩ := h
  exact fun hnone => Option.some_ne_none _ (h.symm.trans hnone)

theorem destination_eq_ok (h : destination place source label = .ok dest) :
    IsDocument place ∧ dest = place ∨ IsDirectory place ∧ dest = documentIn source place label := by
  unfold destination at h
  split at h
  · rename_i hnone
    cases h
    exact .inr ⟨hnone, rfl⟩
  · rename_i extension hextension
    split at h
    · rename_i hpdf
      cases h
      exact .inl ⟨⟨extension, hextension, hpdf⟩, rfl⟩
    · cases h

/-! ### Names of documents -/

/-- The name of a document begins with a stem and a dash, whatever its label is. -/
theorem toList_documentName (source : Location) (label : String) :
    (source.stem?.getD "" ++ "-" ++ label ++ ".pdf").toList =
      ((source.stem?.getD "").toList ++ ['-']) ++ (label.toList ++ ['.', 'p', 'd', 'f']) := by
  simp

theorem front_whole (source : Location) : ∀ c ∈ (source.stem?.getD "").toList ++ ['-'], (c == '/') = false := by
  intro c hc
  rcases List.mem_append.mp hc with hc | hc
  · exact source.stem_whole (by simp) c hc
  · rw [List.mem_singleton.mp hc]
    rfl

/-- The document lies where its name leads to from the directory. -/
theorem documentIn_parts (source place : Location) (label : String) : (documentIn source place label).parts =
    place.parts ++ Location.steps (source.stem?.getD "" ++ "-" ++ label ++ ".pdf").toList := by
  have hdot : (source.stem?.getD "").toList ++ ['-'] ≠ ['.'] := fun he => by
    have hlast := congrArg List.getLast? he
    rw [List.getLast?_concat] at hlast
    exact absurd hlast (by decide)
  obtain ⟨hrelative, hsteps⟩ := Location.parts_of_begin (q := ⟨source.stem?.getD "" ++ "-" ++ label ++ ".pdf"⟩)
    (front_whole source) (List.append_ne_nil_of_right_ne_nil _ (List.cons_ne_nil _ _)) hdot (toList_documentName source label)
  exact (Location.parts_join_of_steps place hrelative hsteps).trans (congrArg (place.parts ++ ·) hsteps)

/-- Without a slash in the label, it lies in the directory itself. -/
theorem documentIn_parts_of_whole (source place : Location) (h : '/' ∉ label.toList) : (documentIn source place label).parts =
    place.parts ++ [.name (source.stem?.getD "" ++ "-" ++ label ++ ".pdf")] := by
  refine Location.parts_join place (Location.isName_of_length ?_ fun c hc => ?_)
  · rw [toList_documentName]
    simp only [List.length_append, List.length_cons, List.length_nil]
    omega
  · rw [toList_documentName] at hc
    rcases List.mem_append.mp hc with hc | hc
    · exact front_whole source c hc
    · rcases List.mem_append.mp hc with hc | hc
      · exact beq_false_of_ne fun he => h (he ▸ hc)
      · have hsuffix : ∀ c ∈ ['.', 'p', 'd', 'f'], (c == '/') = false := by simp
        exact hsuffix c hc

theorem label_of_documentName
    (h : source.stem?.getD "" ++ "-" ++ label ++ ".pdf" = source.stem?.getD "" ++ "-" ++ label' ++ ".pdf") :
    label = label' := by
  have hlists := congrArg String.toList h
  rw [toList_documentName, toList_documentName] at hlists
  exact String.toList_inj.mp (List.append_cancel_right (List.append_cancel_left hlists))

/-- Two targets of a registry have one destination exactly if the places that they are meant for clash. -/
theorem destination_same_iff (h : destination place source label = .ok dest)
    (h' : destination place' source label' = .ok dest') :
    dest.same dest' = true ↔ Clash source place place' label label' := by
  rcases destination_eq_ok h with ⟨hplace, rfl⟩ | ⟨hplace, rfl⟩ <;>
    rcases destination_eq_ok h' with ⟨hplace', rfl⟩ | ⟨hplace', rfl⟩
  · refine ⟨fun hsame => .documents hplace hplace' hsame, fun hclash => ?_⟩
    cases hclash with
    | documents _ _ same => exact same
    | given _ right => exact absurd right hplace'.not_directory
    | taken left | directory left | slash left => exact absurd left hplace.not_directory
  · refine ⟨fun hsame => .given hplace hplace' hsame, fun hclash => ?_⟩
    cases hclash with
    | given _ _ same => exact same
    | documents _ right => exact absurd hplace' right.not_directory
    | taken left | directory left | slash left => exact absurd left hplace.not_directory
  · refine ⟨fun hsame => .taken hplace hplace' hsame, fun hclash => ?_⟩
    cases hclash with
    | taken _ _ same => exact same
    | documents left | given left => exact absurd hplace left.not_directory
    | directory _ right | slash _ right => exact absurd right hplace'.not_directory
  · refine ⟨fun hsame => ?_, fun hclash => ?_⟩
    · by_cases hslash : '/' ∈ label.toList ∨ '/' ∈ label'.toList
      · exact .slash hplace hplace' hslash hsame
      · obtain ⟨hlabel, hlabel'⟩ := not_or.mp hslash
        have hparts := beq_iff_eq.mp hsame
        rw [documentIn_parts_of_whole source place hlabel, documentIn_parts_of_whole source place' hlabel'] at hparts
        obtain ⟨hdirectory, hname⟩ := List.append_inj' hparts rfl
        exact .directory hplace hplace' (beq_iff_eq.mpr hdirectory)
          (label_of_documentName (Location.Part.name.inj (List.singleton_inj.mp hname)))
    · cases hclash with
      | slash _ _ _ same => exact same
      | directory _ _ same hlabel =>
        refine beq_iff_eq.mpr ?_
        rw [documentIn_parts, documentIn_parts, beq_iff_eq.mp same, hlabel]
      | documents left | given left => exact absurd hplace left.not_directory
      | taken _ right => exact absurd hplace' right.not_directory

end Target

/-! ### The targets of a registry -/

namespace Store

variable {l : Library} {s t : Store} {p : Location} {r : Registry}

/-- The targets that a registry declares, one for each declaration and in order, go to the places that their merged
specs and the configuration give them. Two by two, they have the same destination exactly if these places clash. -/
theorem Reachable.get_clash_iff (hs : s.Reachable) (h : effect (get l p) s = (.ok r, t)) :
    ∃ root d own rest, l.locate p = .ok root ∧ l.document root = .ok d ∧ r.contents.targets.items = own ++ rest ∧
      own.length = d.targets.length ∧ ∀ (i j : Nat) (decl decl' : TargetDecl) (a b : Target),
        d.targets[i]? = some decl → own[i]? = some a → d.targets[j]? = some decl' → own[j]? = some b →
        ∃ spec spec', l.catalogue.Specifies root decl spec ∧ l.catalogue.Specifies root decl' spec' ∧
          Target.destination (l.placeFor root spec) root (decl.name.getD "target") = .ok a.dest ∧
          Target.destination (l.placeFor root spec') root (decl'.name.getD "target") = .ok b.dest ∧
          (a.dest.same b.dest = true ↔ Target.Clash root (l.placeFor root spec) (l.placeFor root spec')
            (decl.name.getD "target") (decl'.name.getD "target")) := by
  obtain ⟨root, hroot, d, own, rest, hd, hitems, hdestined⟩ := hs.calm.get_destined h
  have hone : ∀ (i : Nat) (decl : TargetDecl) (a : Target), d.targets[i]? = some decl → own[i]? = some a →
      l.Destined root decl a := by
    intro i decl a hdecl ha
    obtain ⟨hi, rfl⟩ := List.getElem?_eq_some_iff.mp hdecl
    obtain ⟨hi', rfl⟩ := List.getElem?_eq_some_iff.mp ha
    exact hdestined.get hi hi'
  refine ⟨root, d, own, rest, hroot, hd, hitems, hdestined.length_eq.symm, fun i j decl decl' a b hdecl ha hdecl' hb => ?_⟩
  obtain ⟨spec, hspec, hplace⟩ := hone i decl a hdecl ha
  obtain ⟨spec', hspec', hplace'⟩ := hone j decl' b hdecl' hb
  exact ⟨spec, spec', hspec, hspec', hplace, hplace', Target.destination_same_iff hplace hplace'⟩

namespace Twins

/-- A registry with two targets without names. -/
def library : Library :=
  { files := .dir [("r.yml", .file (.text
      "targets:\n- template: t.tex\n  context:\n    n: 1\n- template: t.tex\n  context:\n    n: 2\n"))] }

def file : Location := ⟨"/r.yml"⟩

/-- The identities of the targets of an outcome, and where they go. -/
def targets? (r : Outcome Registry) : Option (List (ElementId × Location)) :=
  r.toOption.map fun r => r.contents.targets.items.map fun t => (Element.id t, t.dest)

/-- They are different targets, and go to one file. -/
theorem get_targets : ∃ r t a b, effect (get library file) {} = (.ok r, t) ∧ r.contents.targets.items = [a, b] ∧
    Element.id a ≠ Element.id b ∧ a.dest.same b.dest = true := by
  have htargets : targets? (effect (get library file) {}).1 =
      some [(.fresh 0, ⟨"/r-target.pdf"⟩), (.fresh 1, ⟨"/r-target.pdf"⟩)] := by decide +kernel
  rcases h : effect (get library file) {} with ⟨e | r, t⟩ <;> rw [h] at htargets
  · cases htargets
  · obtain ⟨a, rest, hitems, ha, hrest⟩ := List.map_eq_cons_iff.mp (Option.some.inj htargets)
    obtain ⟨b, rest, rfl, hb, hrest⟩ := List.map_eq_cons_iff.mp hrest
    cases List.map_eq_nil_iff.mp hrest
    obtain ⟨hida, hdesta⟩ := Prod.mk.inj ha
    obtain ⟨hidb, hdestb⟩ := Prod.mk.inj hb
    refine ⟨r, t, a, b, rfl, hitems, ?_, ?_⟩
    · rw [hida, hidb]
      exact fun he => absurd (ElementId.fresh_injective he) (by decide)
    · rw [hdesta, hdestb]
      decide

/-- The place in the spec that a declaration without bases makes. -/
def dest? (decl : TargetDecl) : Outcome (Option String) := do
  let tree ← Inheritance.mergeOwn decl (TargetSpec.toTree {})
  return (TargetSpec.ofTree (← OverrideDecl.applyAll decl.overrides tree)).dest

/-- What a declaration says about its name, its bases and its place. -/
def profile (decl : TargetDecl) : Option String × List String × Option (Option String) :=
  (decl.name, decl.bases, (dest? decl).toOption)

/-- They are declared without a name, without bases and without a place. -/
theorem document_targets : ∃ d, library.document file = .ok d ∧ d.targets.length = 2 ∧
    ∀ decl ∈ d.targets, decl.name = none ∧ decl.bases = [] ∧ dest? decl = .ok none := by
  have hdeclared : (library.document file).toOption.map (fun d => d.targets.map profile) =
      some (List.replicate 2 (none, [], some none)) := by decide +kernel
  cases hd : library.document file with
  | error e =>
    rw [hd] at hdeclared
    cases hdeclared
  | ok d =>
    rw [hd] at hdeclared
    have hprofiles : d.targets.map profile = List.replicate 2 (none, [], some none) := Option.some.inj hdeclared
    obtain ⟨hlength, hall⟩ := List.eq_replicate_iff.mp hprofiles
    refine ⟨d, rfl, by rwa [List.length_map] at hlength, fun decl hdecl => ?_⟩
    obtain ⟨hname, hrest⟩ := Prod.mk.inj (hall _ (List.mem_map_of_mem hdecl))
    obtain ⟨hbases, hdest⟩ := Prod.mk.inj hrest
    exact ⟨hname, hbases, Outcome.toOption_eq_some.mp hdest⟩

end Twins

/-- The destinations of two targets without names are the same, as their label in one directory is. -/
theorem Reachable.get_clash_iff_of_twins :
    ∃ r t a b place place', effect (get Twins.library Twins.file) {} = (.ok r, t) ∧ r.contents.targets.items = [a, b] ∧
      Element.id a ≠ Element.id b ∧ Target.Clash Twins.file place place' "target" "target" := by
  obtain ⟨r, t, a, b, h, hitems, hne, hsame⟩ := Twins.get_targets
  obtain ⟨d', hd', htwo, hbare⟩ := Twins.document_targets
  obtain ⟨root, d, own, rest, hroot, hd, hparts, hlength, hclash⟩ := Reachable.get_clash_iff (.start {}) h
  have hlocate : Twins.library.locate Twins.file = .ok Twins.file := Outcome.toOption_eq_some.mp (by decide +kernel)
  cases hlocate.symm.trans hroot
  cases hd'.symm.trans hd
  obtain ⟨first, second, hdeclared⟩ := List.length_eq_two.mp htwo
  rw [hdeclared] at hlength hclash hbare
  obtain ⟨rfl, -⟩ : own = [a, b] ∧ rest = [] := by
    have hboth : [a, b] ++ [] = own ++ rest := hitems.symm.trans hparts
    exact (List.append_inj hboth hlength.symm).imp Eq.symm Eq.symm
  obtain ⟨spec, spec', -, -, -, -, hiff⟩ := hclash 0 1 first second a b rfl rfl rfl rfl
  have hfirst := (hbare first (List.mem_cons_self ..)).1
  have hsecond := (hbare second (List.mem_cons_of_mem _ (List.mem_singleton_self _))).1
  rw [hfirst, hsecond] at hiff
  exact ⟨r, t, a, b, _, _, h, hitems, hne, hiff.mp hsame⟩

/-- Two targets that share nothing but the directory have one destination, though no spec that inheritance makes of
them, and no configuration, gives a path. -/
theorem get_clash_of_twins :
    ∃ r t d a b, effect (get Twins.library Twins.file) {} = (.ok r, t) ∧ Twins.library.document Twins.file = .ok d ∧
      d.targets.length = 2 ∧ r.contents.targets.items = [a, b] ∧ Element.id a ≠ Element.id b ∧ a.dest.same b.dest = true ∧
      ∀ decl ∈ d.targets, ∀ spec, Twins.library.catalogue.Specifies Twins.file decl spec →
        Target.IsDirectory (Twins.library.placeFor Twins.file spec) := by
  obtain ⟨r, t, a, b, h, hitems, hne, hsame⟩ := Twins.get_targets
  obtain ⟨d, hd, htwo, hbare⟩ := Twins.document_targets
  refine ⟨r, t, d, a, b, h, hd, htwo, hitems, hne, hsame, fun decl hdecl spec hspec => ?_⟩
  obtain ⟨-, hbases, hdest⟩ := hbare decl hdecl
  obtain ⟨n, tree, merged, htree, hmerged, rfl⟩ := hspec
  rw [Inheritance.Catalogue.tree, Inheritance.Catalogue.foldWith_eq, Inheritance.mergeAll, hbases] at htree
  have hplace : Twins.library.placeFor Twins.file (TargetSpec.ofTree merged) = ⟨"/"⟩ := by
    have hnone : (TargetSpec.ofTree merged).dest = none := by
      obtain ⟨tree', htree', hdest⟩ := Outcome.bind_eq_ok.mp hdest
      obtain ⟨merged', hmerged', hdest⟩ := Outcome.bind_eq_ok.mp hdest
      cases htree'.symm.trans htree
      cases hmerged'.symm.trans hmerged
      exact Except.ok.inj hdest
    unfold Library.placeFor
    rw [hnone]
    decide
  rw [hplace]
  decide

end Store

end Bitpress
