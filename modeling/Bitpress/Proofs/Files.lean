import Bitpress.Document
import Bitpress.Library
import Bitpress.Proofs.Location
import Bitpress.Proofs.Outcome

/-!
The files of a library. What stands at the end of a list of names is among all
files (`FileTree.mem_files_of_at?`), so what is read from a location is the text
of one of them. A reference leads to a location without detours
(`Library.locate_canonical`), and one that has a document is among the places of
the library (`Library.mem_places`).
-/

namespace Bitpress

namespace FileTree

variable {t : FileTree} {c : FileContent} {passed route : List String}

theorem mem_entryFiles_of_mem {entries : Table FileTree} {name : String} {inner : FileTree}
    (h : (name, inner) ∈ entries) {e : List String × FileContent} (he : e ∈ inner.files (passed ++ [name])) :
    e ∈ entryFiles passed entries := by
  induction entries with
  | nil => cases h
  | cons first rest ih =>
    unfold entryFiles
    rcases List.mem_cons.mp h with rfl | h
    · exact List.mem_append_left _ he
    · exact List.mem_append_right _ (ih h)

theorem mem_files_of_at? (h : t.at? route = some (.file c)) : (passed ++ route, c) ∈ t.files passed := by
  induction route generalizing t passed with
  | nil =>
    cases h
    rw [List.append_nil]
    exact List.mem_singleton_self _
  | cons name rest ih =>
    cases t with
    | file _ => cases h
    | dir entries =>
      unfold at? at h
      dsimp only at h
      split at h
      · rename_i inner hinner
        have hmem : (passed ++ [name] ++ rest, c) ∈ inner.files (passed ++ [name]) := ih h
        rw [List.append_assoc] at hmem
        exact mem_entryFiles_of_mem (Table.mem_of_valueAt? hinner) hmem
      · cases h

theorem mem_files_of_readText {p : Location} {text : String} (h : t.readText p = .ok text) :
    ∃ route, t.routeTo p = .ok route ∧ (route, .text text) ∈ t.files [] := by
  obtain ⟨c, hcontent, h⟩ := Outcome.bind_eq_ok.mp h
  obtain ⟨found, hget, hcontent⟩ := Outcome.bind_eq_ok.mp hcontent
  obtain ⟨route, hroute, hget⟩ := Outcome.bind_eq_ok.mp hget
  refine ⟨route, hroute, ?_⟩
  cases hat : t.at? route with
  | none => rw [hat] at hget; cases hget
  | some there =>
    rw [hat] at hget
    cases hget
    cases found with
    | dir entries => cases hcontent
    | file c' =>
      cases hcontent
      cases c with
      | binary bytes => cases h
      | text s =>
        cases h
        have hmem : ([] ++ route, FileContent.text text) ∈ t.files [] := mem_files_of_at? hat
        exact hmem

/-- The parts of a location without detours are followed one by one. -/
theorem follow_names {names : List String} (h : t.follow passed (names.map .name) = .ok route) :
    route = passed.reverse ++ names := by
  induction names generalizing passed with
  | nil =>
    cases h
    exact (List.append_nil _).symm
  | cons s rest ih =>
    rw [List.map_cons, follow] at h
    split at h
    · cases h
    · cases h
    · rw [ih h, List.reverse_cons, List.append_assoc, List.singleton_append]

theorem follow_isName {parts : List Location.Part} (hpassed : ∀ s ∈ passed, Location.IsName s)
    (hparts : ∀ s, .name s ∈ parts → Location.IsName s) (h : t.follow passed parts = .ok route) :
    ∀ s ∈ route, Location.IsName s := by
  induction parts generalizing passed with
  | nil =>
    cases h
    exact fun s hs => hpassed s (List.mem_reverse.mp hs)
  | cons part rest ih =>
    have hrest : ∀ s, .name s ∈ rest → Location.IsName s := fun s hs => hparts s (List.mem_cons_of_mem _ hs)
    cases part with
    | root => exact ih (fun s hs => by cases hs) hrest h
    | current => exact ih hpassed hrest h
    | parent =>
      unfold follow at h
      split at h
      · cases h
      · cases h
      · exact ih (fun s hs => hpassed s (List.mem_of_mem_drop hs)) hrest h
    | name s =>
      rw [follow] at h
      split at h
      · cases h
      · cases h
      · exact ih (List.forall_mem_cons.mpr ⟨hparts s (List.mem_cons_self ..), hpassed⟩) hrest h

theorem follow_of_routeTo {p : Location} (h : t.routeTo p = .ok route) : t.follow [] p.parts = .ok route := by
  unfold routeTo at h
  split at h
  · cases h
  · split at h
    · rename_i found hfound
      -- Whether the location is spelled as a directory does not change where it leads.
      split at h <;> split at h <;> cases h <;> exact hfound
    · cases h

/-- A location without detours is reached along its names. -/
theorem routeTo_ofRoute {names : List String} (hnames : ∀ s ∈ names, Location.IsName s)
    (h : t.routeTo (.ofRoute names) = .ok route) : route = names := by
  have hfollow := follow_of_routeTo h
  rw [Location.parts_ofRoute hnames, follow] at hfollow
  exact follow_names hfollow

theorem canonical?_canonical {p found : Location} (h : t.canonical? p = some found) :
    ∃ names, (∀ s ∈ names, Location.IsName s) ∧ found = .ofRoute names := by
  unfold canonical? at h
  split at h
  · rename_i route hroute
    split at h
    · cases h
      exact ⟨route, follow_isName (fun s hs => by cases hs) (fun s hs => Location.isName_of_mem_parts hs)
        (follow_of_routeTo hroute), rfl⟩
    · cases h
  · cases h

end FileTree

/-- A document is read from the text of one of the files. -/
theorem Library.read_of_document {l : Library} {p : Location} {d : RegistryDocument} (h : l.document p = .ok d) :
    ∃ format route text, l.files.routeTo p = .ok route ∧ (route, .text text) ∈ l.files.files [] ∧
      (Document.readTree format text).bind (Document.ofTree l.config.vars) = .ok d := by
  obtain ⟨format, _, h⟩ := Outcome.bind_eq_ok.mp h
  obtain ⟨text, htext, h⟩ := Outcome.bind_eq_ok.mp h
  have htext : l.files.readText p = .ok text := by
    revert htext
    unfold Outcome.ofFiles
    cases l.files.readText p with
    | error e => exact fun h => by cases h
    | ok s => exact fun h => by cases h; rfl
  obtain ⟨route, hroute, hmem⟩ := FileTree.mem_files_of_readText htext
  refine ⟨format, route, text, hroute, hmem, ?_⟩
  revert h
  unfold Document.parse
  cases (Document.readTree format text).bind (Document.ofTree l.config.vars) with
  | error e => exact fun h => by cases h
  | ok d' => exact fun h => by cases h; rfl

namespace Library

variable {l : Library} {p q : Location}

theorem indexNames_isName : ∀ name ∈ indexNames, Location.IsName name := by
  have hname : ∀ name : String, Location.partOf name.toList = some (.name name) →
      (name.toList.all fun c => !(c == '/')) = true → Location.IsName name := fun name hpart hwhole =>
    ⟨hpart, fun c hc => by simpa using List.all_eq_true.mp hwhole c hc⟩
  unfold indexNames
  simp only [List.forall_mem_cons]
  refine ⟨hname _ ?_ ?_, hname _ ?_ ?_, hname _ ?_ ?_, hname _ ?_ ?_, fun _ h => by cases h⟩ <;> decide

/-- What a reference leads to is spelled without detours. -/
theorem locate_canonical (h : l.locate p = .ok q) : q.Canonical := by
  unfold locate at h
  split at h
  · cases h
  · rename_i found hfound
    obtain ⟨names, hnames, rfl⟩ := FileTree.canonical?_canonical hfound
    split at h
    · split at h
      · rename_i index hindex
        cases h
        obtain ⟨name, hname, rfl⟩ := List.mem_map.mp (List.mem_of_find?_eq_some hindex)
        have hisName := indexNames_isName name hname
        refine ⟨names ++ [name], fun s hs => ?_, Location.join_ofRoute hnames hisName⟩
        rcases List.mem_append.mp hs with hs | hs
        · exact hnames s hs
        · exact List.mem_singleton.mp hs ▸ hisName
      · cases h
    · cases h
      exact ⟨names, hnames, rfl⟩

/-- The locations of all files. -/
def places (l : Library) : List Location := (l.files.files []).map fun e => .ofRoute e.1

theorem length_places (l : Library) : l.places.length = l.extent.files := List.length_map ..

theorem mem_places {d : RegistryDocument} (hp : p.Canonical) (h : l.document p = .ok d) : p ∈ l.places := by
  obtain ⟨names, hnames, rfl⟩ := hp
  obtain ⟨_, route, text, hroute, hmem, _⟩ := read_of_document h
  cases FileTree.routeTo_ofRoute hnames hroute
  exact List.mem_map.mpr ⟨_, hmem, rfl⟩

section Totals
variable {α β : Type} {count count' : α → Nat} {items : List α}

theorem total_cons (count : α → Nat) (item : α) (rest : List α) :
    total count (item :: rest) = count item + total count rest := rfl

theorem length_flatMap_eq (f : α → List β) (items : List α) :
    (items.flatMap f).length = total (fun item => (f item).length) items := by
  induction items with
  | nil => rfl
  | cons item rest ih => rw [List.flatMap_cons, List.length_append, ih, total_cons]

theorem total_le_total (h : ∀ item ∈ items, count item ≤ count' item) : total count items ≤ total count' items := by
  induction items with
  | nil => exact Nat.le_refl 0
  | cons item rest ih =>
    obtain ⟨hfirst, hrest⟩ := List.forall_mem_cons.mp h
    exact Nat.add_le_add hfirst (ih hrest)

end Totals

/-- What is counted in every document is counted over all places. -/
theorem total_documents (l : Library) (count : RegistryDocument → Nat) :
    total count l.documents = total (fun p => ((l.document p).toOption.map count).getD 0) l.places := by
  unfold documents places
  induction l.files.files [] with
  | nil => rfl
  | cons e rest ih =>
    rw [List.map_cons, total_cons, ← ih, List.filterMap_cons]
    cases (l.document (.ofRoute e.1)).toOption with
    | none => exact (Nat.zero_add _).symm
    | some d => rfl

end Library

end Bitpress
