import Bitpress.Config
import Bitpress.Proofs.Merge

/-!
The layers that configuration files are read as.

A layer is a table of sections, and neither the layer nor a section has a key twice
(`Table.Tidy`), whether it was written as INI or as TOML text. In the older file a
section may be spelled in several ways, and what is spelled in several ways goes under
one name in the layer. Of the sections that go under one name the last one stands
there as it is, and what only the others say is lost (`valueAt?_layerOf`); a section
that alone goes under its name is kept (`getLast?_under`).
-/

namespace Bitpress

variable {text : String} {t : Tree}

theorem Table.tidy_nil : Table.Tidy [] := ⟨List.nodup_nil, nofun⟩

/-! ### INI text -/

namespace Ini

/-- What has been read holds no key twice. -/
structure Progress.Tidy (p : Progress) : Prop where
  done : p.done.Tidy
  entries : p.entries.Distinct

theorem Progress.Tidy.close {p : Progress} (h : p.Tidy) : Table.Tidy p.close := by
  unfold Progress.close
  split
  · exact h.done.put (Tree.keyed_map.mpr h.entries)
  · exact h.done

theorem Progress.Tidy.add {p : Progress} (h : p.Tidy) (line : Line) : (p.add line).Tidy := by
  unfold Progress.add
  split
  · exact h
  · exact ⟨h.close, List.nodup_nil⟩
  · split
    · exact ⟨h.done, h.entries.put _ _⟩
    · exact ⟨h.done.put (Tree.keyed_of_ne nofun), h.entries⟩

theorem Progress.Tidy.foldl {p : Progress} (h : p.Tidy) (lines : List Line) : (lines.foldl Progress.add p).Tidy := by
  induction lines generalizing p with
  | nil => exact h
  | cons line rest ih => exact ih (h.add line)

/-- Neither sections nor their entries stand twice. -/
theorem tidy_of_read (h : read text = .ok t) : t.Tidy := by
  unfold read at h
  split at h
  · rename_i lines _
    cases h
    have hstart : Progress.Tidy {} := ⟨Table.tidy_nil, List.nodup_nil⟩
    exact ⟨_, rfl, (hstart.foldl lines).close⟩
  · cases h

end Ini

/-! ### TOML text -/

namespace Toml

open Outcome

variable {c c' : Content} {v : Value} {cs rest : List Char} {change : Origin → Content → Option Content}

/-- If a value is a table, no key stands twice in it. -/
def Value.Keyed (v : Value) : Prop := ∀ o entries, v = .table o entries → Table.Distinct entries

theorem keyed_table {inner : Content} (h : Table.Distinct inner) (o : Origin) : (Value.table o inner).Keyed :=
  fun _ _ he => by
    cases he
    exact h

/-- Neither the keys of contents stand twice nor those of the tables in them. -/
structure Content.Tidy (c : Content) : Prop where
  distinct : Table.Distinct c
  keyed : ∀ e ∈ c, e.2.Keyed

theorem Content.tidy_nil : Content.Tidy [] := ⟨List.nodup_nil, nofun⟩

/-- A change puts one value, and a table without keys that stand twice if there have been none. -/
def Puts (change : Origin → Content → Option Content) : Prop :=
  ∀ o c c', change o c = some c' → ∃ key v, c' = Table.put c key v ∧ (Content.Tidy c → v.Keyed)

theorem Puts.distinct (h : Puts change) {o : Origin} (hchange : change o c = some c') (hc : Table.Distinct c) :
    Table.Distinct c' := by
  obtain ⟨key, v, rfl, _⟩ := h o c c' hchange
  exact hc.put key v

theorem Puts.tidy (h : Puts change) {o : Origin} (hchange : change o c = some c') (hc : Content.Tidy c) :
    Content.Tidy c' := by
  obtain ⟨key, v, rfl, hv⟩ := h o c c' hchange
  exact ⟨hc.distinct.put key v, Table.forall_put hc.keyed (hv hc)⟩

/-- What is changed further down is put again on the way back. -/
theorem Puts.changeAt (h : Puts change) (made : Origin) (path : List String) :
    Puts fun o c => Toml.changeAt made change o c path := by
  induction path with
  | nil => exact h
  | cons key path ih =>
    intro o c c' hc
    dsimp only at hc
    unfold Toml.changeAt at hc
    split at hc
    · obtain ⟨inner, hinner, hc⟩ := Option.bind_eq_some_iff.mp hc
      cases hc
      exact ⟨key, _, rfl, fun _ => keyed_table (ih.distinct hinner List.nodup_nil) made⟩
    · rename_i origin inner hvalue
      split at hc
      · cases hc
      · obtain ⟨next, hnext, hc⟩ := Option.bind_eq_some_iff.mp hc
        cases hc
        refine ⟨key, _, rfl, fun htidy => keyed_table (ih.distinct hnext ?_) origin⟩
        exact htidy.keyed _ (Table.mem_of_valueAt? hvalue) origin inner rfl
    · split at hc
      · cases hc
      · obtain ⟨inner, _, hc⟩ := Option.bind_eq_some_iff.mp hc
        cases hc
        exact ⟨key, _, rfl, fun _ => nofun⟩
    · cases hc

theorem puts_addEntry (hv : v.Keyed) (keys : List String) : Puts fun o c => addEntry? c o keys v := by
  intro o c c' h
  dsimp only at h
  unfold addEntry? at h
  split at h
  · cases h
  · rename_i key _
    refine Puts.changeAt (fun o u u' hu => ?_) .dotted keys.dropLast o c c' h
    split at hu
    · cases hu
    · cases hu
      exact ⟨key, v, rfl, fun _ => hv⟩

theorem tidy_addBelow {current keys : List String} (h : addBelow? c current keys v = some c') (hv : v.Keyed)
    (hc : Content.Tidy c) : Content.Tidy c' :=
  ((puts_addEntry hv keys).changeAt .passed current).tidy h hc

theorem tidy_openTable {keys : List String} (h : openTable? c keys = some c') (hc : Content.Tidy c) :
    Content.Tidy c' := by
  unfold openTable? at h
  split at h
  · cases h
  · rename_i key _
    refine Puts.tidy (Puts.changeAt (fun o u u' hu => ?_) .passed keys.dropLast) h hc
    split at hu
    · cases hu
      exact ⟨key, _, rfl, fun _ => keyed_table Content.tidy_nil.distinct _⟩
    · rename_i entries hvalue
      cases hu
      exact ⟨key, _, rfl, fun hu => keyed_table (hu.keyed _ (Table.mem_of_valueAt? hvalue) _ entries rfl) _⟩
    · cases hu

theorem tidy_openItem {keys : List String} (h : openItem? c keys = some c') (hc : Content.Tidy c) :
    Content.Tidy c' := by
  unfold openItem? at h
  split at h
  · cases h
  · rename_i key _
    refine Puts.tidy (Puts.changeAt (fun o u u' hu => ?_) .passed keys.dropLast) h hc
    split at hu <;> cases hu <;> exact ⟨key, _, rfl, fun _ => nofun⟩

/-- A value is read without keys that stand twice, and so are the entries between braces. -/
theorem keyed_of_read (fuel : Nat) :
    (∀ {cs v rest}, value? cs fuel = some (v, rest) → v.Keyed) ∧
      ∀ {c cs c' rest}, inlineEntries? c cs fuel = some (c', rest) → Content.Tidy c → Content.Tidy c' := by
  induction fuel with
  | zero => exact ⟨nofun, nofun⟩
  | succ fuel ih =>
    refine ⟨fun {cs v rest} h => ?value, fun {c cs c' rest} h hc => ?entries⟩
    case value =>
      unfold value? at h
      split at h
      · obtain ⟨⟨items, afterItems⟩, _, h⟩ := Option.bind_eq_some_iff.mp h
        cases h
        exact nofun
      · obtain ⟨⟨entries, afterEntries⟩, hentries, h⟩ := Option.bind_eq_some_iff.mp h
        cases h
        exact keyed_table (ih.2 hentries Content.tidy_nil).distinct _
      · split at h
        · obtain ⟨⟨s, afterText⟩, _, h⟩ := Option.map_eq_some_iff.mp h
          cases h
          exact nofun
        · obtain ⟨⟨s, afterScalar⟩, _, h⟩ := Option.map_eq_some_iff.mp h
          cases h
          exact nofun
      · cases h
    case entries =>
      unfold inlineEntries? at h
      obtain ⟨begun, _, h⟩ := Option.bind_eq_some_iff.mp h
      split at h
      · cases h
        exact hc
      · obtain ⟨⟨keys, afterKeys⟩, _, h⟩ := Option.bind_eq_some_iff.mp h
        dsimp only at h
        split at h
        · obtain ⟨⟨v, afterValue⟩, hvalue, h⟩ := Option.bind_eq_some_iff.mp h
          obtain ⟨next, hnext, h⟩ := Option.bind_eq_some_iff.mp h
          have htidy : Content.Tidy next := (puts_addEntry (ih.1 hvalue) keys).tidy hnext hc
          obtain ⟨ended, _, h⟩ := Option.bind_eq_some_iff.mp h
          split at h
          · exact ih.2 h htidy
          · cases h
            exact htidy
          · cases h
        · cases h

theorem tidy_statement {p p' : Progress} (h : statement? p cs = some (p', rest)) (hp : Content.Tidy p.root) :
    Content.Tidy p'.root := by
  unfold statement? at h
  split at h
  · obtain ⟨⟨keys, afterKeys⟩, _, h⟩ := Option.bind_eq_some_iff.mp h
    obtain ⟨ended, _, h⟩ := Option.bind_eq_some_iff.mp h
    obtain ⟨root, hroot, h⟩ := Option.bind_eq_some_iff.mp h
    cases h
    exact tidy_openItem hroot hp
  · obtain ⟨⟨keys, afterKeys⟩, _, h⟩ := Option.bind_eq_some_iff.mp h
    obtain ⟨ended, _, h⟩ := Option.bind_eq_some_iff.mp h
    obtain ⟨root, hroot, h⟩ := Option.bind_eq_some_iff.mp h
    cases h
    exact tidy_openTable hroot hp
  · obtain ⟨⟨keys, afterKeys⟩, _, h⟩ := Option.bind_eq_some_iff.mp h
    obtain ⟨ended, _, h⟩ := Option.bind_eq_some_iff.mp h
    obtain ⟨⟨v, afterValue⟩, hvalue, h⟩ := Option.bind_eq_some_iff.mp h
    obtain ⟨root, hroot, h⟩ := Option.bind_eq_some_iff.mp h
    cases h
    exact tidy_addBelow hroot ((keyed_of_read _).1 hvalue) hp

theorem tidy_statements {p p' : Progress} {fuel : Nat} (h : statements? p cs fuel = some p')
    (hp : Content.Tidy p.root) : Content.Tidy p'.root := by
  induction fuel generalizing p cs with
  | zero => cases h
  | succ fuel ih =>
    unfold statements? at h
    obtain ⟨begun, _, h⟩ := Option.bind_eq_some_iff.mp h
    split at h
    · cases h
      exact hp
    · obtain ⟨⟨next, afterStatement⟩, hnext, h⟩ := Option.bind_eq_some_iff.mp h
      obtain ⟨afterComment, _, h⟩ := Option.bind_eq_some_iff.mp h
      obtain ⟨ended, _, h⟩ := Option.bind_eq_some_iff.mp h
      exact ih h (tidy_statement hnext hp)

theorem entriesOf_eq (c : Content) : entriesOf c = Table.mapValues Value.tree c := by
  induction c with
  | nil => rfl
  | cons e rest ih =>
    obtain ⟨key, v⟩ := e
    rw [entriesOf, ih]
    rfl

/-- The data of a table has its keys, in order, and the data of its values. -/
theorem tableTree_eq_ok (h : tableTree (entriesOf c) = .ok t) : ∃ entries : Table Tree, t = .map entries ∧
    entries.keyList.Perm (Table.keyList c) ∧ ∀ e ∈ entries, ∃ v, (e.1, v) ∈ c ∧ v.tree = .ok e.2 := by
  obtain ⟨entries, hentries, h⟩ := bind_eq_ok.mp h
  cases h
  have hperm : (Table.sorted (entriesOf c)).Perm (Table.mapValues Value.tree c) := by
    rw [entriesOf_eq]
    exact List.mergeSort_perm ..
  have hsame : List.Forall₂ (fun x y => x.1 = y.1) (Table.sorted (entriesOf c)) entries :=
    (mapM_eq_ok.mp hentries).imp fun x y hmade => by
      obtain ⟨v, _, hmade⟩ := bind_eq_ok.mp hmade
      cases hmade
      rfl
  have hkeys : (Table.sorted (entriesOf c)).keyList = Table.keyList entries :=
    List.forall₂_eq_eq_eq ▸ List.forall₂_map_left_iff.mpr (List.forall₂_map_right_iff.mpr hsame)
  refine ⟨entries, rfl, ?_, fun e he => ?_⟩
  · rw [← hkeys, ← Table.keyList_mapValues Value.tree c]
    exact hperm.map Prod.fst
  · obtain ⟨⟨key, r⟩, hmem, hmade⟩ := exists_ok_of_mapM hentries e he
    obtain ⟨u, hu, hmade⟩ := bind_eq_ok.mp hmade
    cases hmade
    obtain ⟨⟨key, v⟩, hv, heq⟩ := List.mem_map.mp (hperm.mem_iff.mp hmem)
    cases heq
    exact ⟨v, hv, hu⟩

theorem keyed_tree (hv : v.Keyed) (h : v.tree = .ok t) : t.Keyed := by
  cases v with
  | scalar s =>
    refine Tree.keyed_of_ne fun entries he => ?_
    subst he
    unfold Value.tree Scalar.tree at h
    split at h
    case h_3 => split at h <;> cases h
    all_goals cases h
  | array items =>
    obtain ⟨trees, _, rfl⟩ := map_eq_ok.mp h
    exact Tree.keyed_of_ne nofun
  | table o inner =>
    obtain ⟨entries, rfl, hkeys, _⟩ := tableTree_eq_ok h
    exact Tree.keyed_map.mpr (hkeys.nodup_iff.mpr (hv o inner rfl))
  | tables items =>
    obtain ⟨trees, _, rfl⟩ := map_eq_ok.mp h
    exact Tree.keyed_of_ne nofun

/-- Neither the keys of a text stand twice nor those of the tables under them. -/
theorem tidy_of_read (h : read text = .ok t) : t.Tidy := by
  unfold read at h
  dsimp only at h
  split at h
  · cases h
  · rename_i p hp
    have htidy : Content.Tidy p.root := tidy_statements hp Content.tidy_nil
    obtain ⟨entries, rfl, hkeys, hvalues⟩ := tableTree_eq_ok h
    refine ⟨entries, rfl, hkeys.nodup_iff.mpr htidy.distinct, fun e he => ?_⟩
    obtain ⟨v, hv, htree⟩ := hvalues e he
    exact keyed_tree (htidy.keyed _ hv) htree

end Toml

/-! ### Layers -/

/-- What a layer says of a setting. -/
def Table.setting? (layer : Table Tree) (name key : String) : Option Tree :=
  (layer.valueAt? name).bind fun t => t.valueAt? key

namespace Config

variable {sections : Table Tree} {name : String}

/-- The layer that the sections of an older file are. -/
def layerOf (sections : Table Tree) : Table Tree := sections.foldl addSection []

/-- The sections that go under a name, in order. -/
def under (name : String) (sections : Table Tree) : List (Table Tree) :=
  sections.filterMap fun e => if iniSectionName e.1 = name then e.2.table? else none

theorem readIni_eq_ok (h : Ini.read text = .ok t) : readIni text = .ok (.map (layerOf t.entries)) := by
  unfold readIni
  rw [h]
  rfl

theorem addSection_cases (layer : Table Tree) (e : String × Tree) :
    (∃ entries, e.2 = .map entries ∧
      addSection layer e = layer.put (iniSectionName e.1) (.map (Table.mapValues iniValue entries))) ∨
      e.2.table? = none ∧ addSection layer e = layer := by
  obtain ⟨key, t⟩ := e
  cases t with
  | map entries => exact .inl ⟨entries, rfl, rfl⟩
  | _ => exact .inr ⟨rfl, rfl⟩

theorem tidy_layerOf (h : sections.Tidy) : Table.Tidy (layerOf sections) := by
  have hfrom : ∀ layer : Table Tree, layer.Tidy → Table.Tidy (sections.foldl addSection layer) := by
    have hkeyed := h.keyed
    clear h
    induction sections with
    | nil => exact fun _ hlayer => hlayer
    | cons e rest ih =>
      obtain ⟨hfirst, hrest⟩ := List.forall_mem_cons.mp hkeyed
      intro layer hlayer
      refine ih hrest _ ?_
      rcases addSection_cases layer e with ⟨entries, he, hadd⟩ | ⟨_, hadd⟩
      · rw [hadd]
        exact hlayer.put (Tree.keyed_map.mpr ((hfirst entries he).mapValues iniValue))
      · rwa [hadd]
  exact hfrom [] Table.tidy_nil

/-- Of the sections that go under one name, the last one stands there as it is. -/
theorem valueAt?_layerOf (sections : Table Tree) (name : String) :
    (layerOf sections).valueAt? name =
      (under name sections).getLast?.map fun entries => .map (Table.mapValues iniValue entries) := by
  have hfrom : ∀ layer : Table Tree, Table.valueAt? (sections.foldl addSection layer) name =
      (((under name sections).getLast?.map fun entries => .map (Table.mapValues iniValue entries)) <|>
        layer.valueAt? name) := by
    induction sections with
    | nil => exact fun _ => rfl
    | cons e rest ih =>
      intro layer
      rw [List.foldl_cons, ih]
      rcases addSection_cases layer e with ⟨entries, he, hadd⟩ | ⟨he, hadd⟩
      · rw [hadd, Table.valueAt?_put]
        by_cases hname : iniSectionName e.1 = name
        · have hunder : under name (e :: rest) = entries :: under name rest := by simp [under, hname, he, Tree.table?]
          rw [hunder, List.getLast?_cons, if_pos hname.symm]
          cases (under name rest).getLast? <;> rfl
        · have hunder : under name (e :: rest) = under name rest := by simp [under, hname]
          rw [hunder, if_neg (Ne.symm hname)]
      · have hunder : under name (e :: rest) = under name rest := by simp [under, he]
        rw [hadd, hunder]
  rw [layerOf, hfrom []]
  simp

/-- A section that alone goes under its name is the one that counts. -/
theorem getLast?_under {e : String × Tree} {entries : Table Tree} (he : e ∈ sections) (hmap : e.2 = .map entries)
    (halone : ∀ other ∈ sections, iniSectionName other.1 = iniSectionName e.1 → other = e) :
    (under (iniSectionName e.1) sections).getLast? = some entries := by
  have hmem : entries ∈ under (iniSectionName e.1) sections :=
    List.mem_filterMap.mpr ⟨e, he, by rw [if_pos rfl, hmap]; rfl⟩
  obtain ⟨last, hlast⟩ := Option.isSome_iff_exists.mp (List.getLast?_isSome.mpr (List.ne_nil_of_mem hmem))
  obtain ⟨other, hother, hothers⟩ := List.mem_filterMap.mp (List.mem_of_getLast? hlast)
  split at hothers
  · rename_i hname
    rw [halone other hother hname, hmap] at hothers
    cases hothers
    exact hlast
  · cases hothers

theorem setting?_layerOf (sections : Table Tree) (name key : String) :
    (layerOf sections).setting? name key =
      ((under name sections).getLast?.bind fun entries => entries.valueAt? key).map iniValue := by
  unfold Table.setting?
  rw [valueAt?_layerOf]
  cases (under name sections).getLast? with
  | none => rfl
  | some entries => exact Table.valueAt?_mapValues iniValue entries key

/-- What is a text in a layer was that text in the file. -/
theorem eq_of_iniValue {s : String} (h : iniValue t = .str s) : t = .str s := by
  unfold iniValue at h
  split at h
  · split at h
    · cases h
    · split at h
      · cases h
      · exact h
  · exact h

/-- Of two sections that go under one name, what only the first says is lost. -/
example : readIni "[DEFAULT]\ntemplate = exam.tex\n\n[defaults]\ndest = out\n" =
    .ok (.map [("defaults", .map [("dest", .str "out")])]) := by
  cbv

end Config
end Bitpress
