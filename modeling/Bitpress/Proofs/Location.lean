import Bitpress.Location
import Bitpress.Proofs.Lines

/-!
Locations without detours.

A canonical location spells the names from the root to a file, so its parts are
these names (`parts_ofRoute`). What lies in a directory has one more part
(`parts_join`), and another extension changes the last part only
(`parts_withExtension`).
-/

namespace Bitpress

namespace Location

/-- A text that stands for itself among the parts of a location. -/
structure IsName (s : String) : Prop where
  part : partOf s.toList = some (.name s)
  whole : ∀ c ∈ s.toList, (c == '/') = false

theorem IsName.ne_nil {s : String} (h : IsName s) : s.toList ≠ [] := by
  intro hnil
  have := h.part
  rw [hnil] at this
  cases this

theorem IsName.relative {s : String} (h : IsName s) : (⟨s⟩ : Location).isAbsolute = false := by
  unfold isAbsolute
  rcases hlist : s.toList with _ | ⟨c, cs⟩
  · rfl
  · have := h.whole c (hlist ▸ List.mem_cons_self ..)
    simpa using this

theorem isName_of_mem_parts {p : Location} {s : String} (h : .name s ∈ p.parts) : IsName s := by
  unfold parts at h
  dsimp only at h
  rcases List.mem_append.mp h with h | h
  · split at h
    · rcases List.mem_singleton.mp h with h
      cases h
    · split at h
      · cases List.mem_singleton.mp h
      · cases h
  · obtain ⟨piece, hpiece, hpart⟩ := List.mem_filterMap.mp h
    have hs : s = String.ofList piece := by
      unfold partOf at hpart
      split at hpart
      · cases hpart
      · split at hpart
        · cases hpart
        · cases hpart
          rfl
    subst hs
    exact ⟨by rw [String.toList_ofList]; exact hpart, by rw [String.toList_ofList]; exact Text.mem_splitWhere hpiece⟩

/-- A location without detours. -/
def Canonical (p : Location) : Prop := ∃ names, (∀ s ∈ names, IsName s) ∧ p = ofRoute names

theorem toList_ofRoute (names : List String) :
    (ofRoute names).text.toList = '/' :: ['/'].intercalate (names.map String.toList) := by
  show ("/" ++ String.intercalate "/" names).toList = _
  rw [String.toList_append, String.toList_intercalate]
  rfl

theorem filterMap_partOf {names : List String} (h : ∀ s ∈ names, IsName s) :
    (names.map String.toList).filterMap partOf = names.map .name := by
  induction names with
  | nil => rfl
  | cons s rest ih =>
    obtain ⟨hs, hrest⟩ := List.forall_mem_cons.mp h
    rw [List.map_cons, List.filterMap_cons_some hs.part, ih hrest, List.map_cons]

/-- The parts that the pieces of a text are. -/
def steps (cs : List Char) : List Part := (Text.splitChars '/' cs).filterMap partOf

theorem steps_cut (front rest : List Char) : steps (front ++ '/' :: rest) = steps front ++ steps rest := by
  unfold steps Text.splitChars
  rw [Text.splitWhere_cut (by decide), List.filterMap_append]

theorem IsName.steps_eq {s : String} (h : IsName s) : steps s.toList = [.name s] := by
  unfold steps Text.splitChars
  rw [Text.splitWhere_of_forall h.whole, List.filterMap_cons_some h.part, List.filterMap_nil]

theorem parts_absolute {p : Location} {cs : List Char} (h : p.text.toList = '/' :: cs) : p.parts = .root :: steps cs := by
  have habsolute : p.isAbsolute = true := by
    unfold isAbsolute
    rw [h]
    rfl
  unfold parts
  dsimp only
  rw [if_pos habsolute, h]
  rfl

theorem parts_ofRoute {names : List String} (h : ∀ s ∈ names, IsName s) :
    (ofRoute names).parts = .root :: names.map .name := by
  have hpieces : ∀ piece ∈ names.map String.toList, ∀ c ∈ piece, (c == '/') = false := by
    intro piece hpiece
    obtain ⟨s, hs, rfl⟩ := List.mem_map.mp hpiece
    exact (h s hs).whole
  rw [parts_absolute (toList_ofRoute names)]
  refine congrArg (Part.root :: ·) ?_
  cases names with
  | nil => rfl
  | cons s rest => rw [steps, Text.splitChars, Text.splitWhere_intercalate (by decide) (by simp) hpieces, filterMap_partOf h]

theorem resolveParts_names (passed names : List String) :
    resolveParts passed (names.map .name) = passed.reverse ++ names := by
  induction names generalizing passed with
  | nil => exact (List.append_nil _).symm
  | cons s rest ih =>
    show resolveParts (s :: passed) (rest.map .name) = _
    rw [ih, List.reverse_cons, List.append_assoc, List.singleton_append]

theorem route_ofRoute {names : List String} (h : ∀ s ∈ names, IsName s) : (ofRoute names).route = names := by
  unfold route
  rw [parts_ofRoute h]
  exact resolveParts_names [] names

/-- The spelling of a location without detours. -/
def plain (p : Location) : Location := ofRoute p.route

theorem Canonical.plain_eq {p : Location} (h : p.Canonical) : p.plain = p := by
  obtain ⟨names, hnames, rfl⟩ := h
  exact congrArg ofRoute (route_ofRoute hnames)

theorem plain_congr {p q : Location} (h : p.parts = q.parts) : p.plain = q.plain :=
  congrArg (fun parts => ofRoute (resolveParts [] parts)) h

theorem ext_toList {p q : Location} (h : p.text.toList = q.text.toList) : p = q := by
  obtain ⟨s⟩ := p
  obtain ⟨t⟩ := q
  exact congrArg mk (String.toList_inj.mp h)

/-- The last name is what the spelling ends with. -/
theorem toList_ofRoute_concat (names : List String) (last : String) :
    ∃ front, (ofRoute (names ++ [last])).text.toList = front ++ last.toList := by
  rw [toList_ofRoute, List.map_append, List.map_singleton]
  cases names with
  | nil => exact ⟨['/'], by rw [List.map_nil, List.nil_append, List.intercalate_singleton]; rfl⟩
  | cons first rest =>
    rw [Text.intercalate_concat (by simp)]
    exact ⟨'/' :: ['/'].intercalate ((first :: rest).map String.toList) ++ ['/'], by simp⟩

/-- A file in a directory has one more name. -/
theorem join_ofRoute {names : List String} (h : ∀ s ∈ names, IsName s) {name : String} (hname : IsName name) :
    (ofRoute names).join ⟨name⟩ = ofRoute (names ++ [name]) := by
  have hne : (ofRoute names).text ≠ "" := by
    intro hempty
    have := toList_ofRoute names
    rw [hempty] at this
    cases this
  unfold join
  rw [if_neg (by rw [hname.relative]; exact Bool.false_ne_true)]
  refine ext_toList ?_
  rcases names.eq_nil_or_concat' with rfl | ⟨init, last, rfl⟩
  · rw [if_pos (.inr rfl), toList_ofRoute, String.toList_append, List.nil_append, List.map_singleton,
      List.intercalate_singleton]
    rfl
  · have hlast := h last (List.mem_append_right _ (List.mem_singleton_self _))
    have hend : (ofRoute (init ++ [last])).text.toList.getLast? ≠ some '/' := by
      obtain ⟨front, hfront⟩ := toList_ofRoute_concat init last
      rw [hfront, List.getLast?_append_of_ne_nil _ hlast.ne_nil]
      intro hslash
      simpa using hlast.whole '/' (List.mem_of_getLast? hslash)
    have hlists : ((init ++ [last]) ++ [name]).map String.toList =
        (init ++ [last]).map String.toList ++ [name.toList] := List.map_append
    rw [if_neg (not_or.mpr ⟨hne, hend⟩), toList_ofRoute, String.toList_append, String.toList_append, toList_ofRoute,
      hlists, Text.intercalate_concat (by simp)]
    simp

/-! ### What lies in a directory -/

/-- What stands after a separator adds its parts. -/
theorem parts_of_cut {p q : Location} {front rest : List Char} (hp : p.text.toList = front) (hne : front ≠ [])
    (hq : q.text.toList = front ++ '/' :: rest) : q.parts = p.parts ++ steps rest := by
  obtain ⟨first, more, hfront⟩ := List.exists_cons_of_ne_nil (Text.splitChars_ne_nil '/' front)
  have hhead : (Text.splitChars '/' (front ++ '/' :: rest)).head? = (Text.splitChars '/' front).head? := by
    rw [hfront, Text.splitChars, Text.splitWhere_cut (by decide)]
    exact congrArg (fun pieces => (pieces ++ Text.splitChars '/' rest).head?) hfront
  have habsolute : q.isAbsolute = p.isAbsolute := by
    unfold isAbsolute
    rw [hp, hq]
    cases front with
    | nil => exact absurd rfl hne
    | cons c cs => rfl
  have hsteps := steps_cut front rest
  unfold steps at hsteps
  unfold parts
  dsimp only
  rw [hq, hp, habsolute, hhead, hsteps, List.append_assoc]
  rfl

/-- What begins with a name, or with more than a dot, has the parts of its pieces. -/
theorem parts_of_begin {q : Location} {front rest : List Char} (hwhole : ∀ c ∈ front, (c == '/') = false)
    (hne : front ≠ []) (hdot : front ≠ ['.']) (hq : q.text.toList = front ++ rest) :
    q.isAbsolute = false ∧ q.parts = steps q.text.toList := by
  have habsolute : q.isAbsolute = false := by
    unfold isAbsolute
    rw [hq]
    cases front with
    | nil => exact absurd rfl hne
    | cons c cs => simpa using hwhole c (List.mem_cons_self ..)
  obtain ⟨piece, hpiece⟩ := Text.head?_splitWhere_append hwhole rest
  have hhead : (Text.splitChars '/' q.text.toList).head? ≠ some ['.'] := fun he => by
    rw [hq, Text.splitChars, hpiece] at he
    cases front with
    | nil => exact hne rfl
    | cons c cs =>
      obtain ⟨hc, hrest⟩ := List.cons.inj (Option.some.inj he)
      rw [hc, (List.append_eq_nil_iff.mp hrest).1] at hdot
      exact hdot rfl
  refine ⟨habsolute, ?_⟩
  unfold parts
  dsimp only
  rw [habsolute, if_neg Bool.false_ne_true, if_neg hhead]
  rfl

/-- A location that does not begin with a dot leads on from where it is seen. -/
theorem parts_join_of_steps (p : Location) {q : Location} (h : q.isAbsolute = false) (hq : q.parts = steps q.text.toList) :
    (p.join q).parts = p.parts ++ q.parts := by
  rw [hq]
  unfold join
  rw [if_neg (by rw [h]; exact Bool.false_ne_true)]
  by_cases hempty : p.text = ""
  · have hp : p.parts = [] := by
      obtain ⟨_⟩ := p
      cases hempty
      rfl
    rw [if_pos (.inl hempty), hp, hempty, String.empty_append]
    exact hq
  · by_cases hslash : p.text.toList.getLast? = some '/'
    · obtain ⟨front, hfront⟩ := List.getLast?_eq_some_iff.mp hslash
      have htext : (p.text ++ q.text).toList = front ++ '/' :: q.text.toList := by
        rw [String.toList_append, hfront, List.append_assoc]
        rfl
      rw [if_pos (.inr hslash)]
      rcases front.eq_nil_or_concat' with rfl | ⟨init, last, rfl⟩
      · rw [parts_absolute hfront, parts_absolute htext]
        rfl
      · have hne : init ++ [last] ≠ [] := List.append_ne_nil_of_right_ne_nil _ (List.cons_ne_nil _ _)
        have hopen : p.parts = parts ⟨String.ofList (init ++ [last])⟩ :=
          (parts_of_cut String.toList_ofList hne hfront).trans (List.append_nil _)
        rw [hopen]
        exact parts_of_cut String.toList_ofList hne htext
    · rw [if_neg (not_or.mpr ⟨hempty, hslash⟩)]
      refine parts_of_cut rfl (fun hnil => hempty (String.toList_inj.mp hnil)) ?_
      rw [String.toList_append, String.toList_append, List.append_assoc]
      rfl

theorem IsName.ne_dot {s : String} (h : IsName s) : s.toList ≠ ['.'] := by
  intro hdot
  have := h.part
  rw [hdot] at this
  cases this

theorem IsName.parts_eq {name : String} (h : IsName name) : parts ⟨name⟩ = [.name name] :=
  (parts_of_begin h.whole h.ne_nil h.ne_dot (List.append_nil _).symm).2.trans h.steps_eq

/-- A file in a directory has the parts of the directory and its name. -/
theorem parts_join (p : Location) {name : String} (h : IsName name) :
    (p.join ⟨name⟩).parts = p.parts ++ [.name name] := by
  rw [parts_join_of_steps p h.relative (h.parts_eq.trans h.steps_eq.symm), h.parts_eq]

theorem resolveParts_concat (acc : List String) (parts : List Part) (name : String) :
    resolveParts acc (parts ++ [.name name]) = resolveParts acc parts ++ [name] := by
  induction parts generalizing acc with
  | nil => exact List.reverse_cons
  | cons part rest ih => cases part <;> exact ih _

theorem route_join (p : Location) {name : String} (h : IsName name) : (p.join ⟨name⟩).route = p.route ++ [name] := by
  unfold route
  rw [parts_join p h]
  exact resolveParts_concat [] p.parts name

section

variable {p q : Location} {name extension : String}

/-! ### Last parts -/

/-- Before the parts of the pieces, no name stands. -/
theorem parts_eq (p : Location) : ∃ start, p.parts = start ++ steps p.text.toList ∧ ∀ s, .name s ∉ start := by
  unfold parts
  dsimp only
  refine ⟨_, rfl, fun s hs => ?_⟩
  split at hs
  · cases List.mem_singleton.mp hs
  · split at hs
    · cases List.mem_singleton.mp hs
    · cases hs

theorem fileName?_eq_some : p.fileName? = some name ↔ p.parts.getLast? = some (.name name) := by
  unfold fileName?
  split
  · rename_i s hs
    rw [hs]
    exact ⟨fun h => congrArg (some <| Part.name ·) (Option.some.inj h),
      fun h => congrArg some (Part.name.inj (Option.some.inj h))⟩
  · rename_i hnone
    exact ⟨nofun, fun h => absurd h (hnone name)⟩

theorem isName_of_fileName? (h : p.fileName? = some name) : IsName name := by
  obtain ⟨init, hinit⟩ := List.getLast?_eq_some_iff.mp (fileName?_eq_some.mp h)
  refine isName_of_mem_parts (p := p) ?_
  rw [hinit]
  exact List.mem_append_right _ (List.mem_singleton_self _)

theorem fileName?_iff_steps : p.fileName? = some name ↔ (steps p.text.toList).getLast? = some (.name name) := by
  obtain ⟨start, hparts, hstart⟩ := p.parts_eq
  rw [fileName?_eq_some, hparts]
  rcases List.eq_nil_or_concat' (steps p.text.toList) with hnil | ⟨init, last, hlast⟩
  · rw [hnil, List.append_nil]
    exact ⟨fun h => absurd (List.mem_of_getLast? h) (hstart name), nofun⟩
  · rw [hlast, ← List.append_assoc, List.getLast?_concat, List.getLast?_concat]

/-- A location ends in what it is joined with. -/
theorem fileName?_join (h : q.fileName? = some name) : (p.join q).fileName? = some name := by
  unfold join
  split
  · exact h
  · rw [fileName?_iff_steps] at h ⊢
    -- What stands before the separator makes parts of its own.
    have hcut : ∀ front : List Char, (steps (front ++ '/' :: q.text.toList)).getLast? = some (.name name) := fun front => by
      rw [steps_cut, List.getLast?_append_of_ne_nil _ fun hnil => by rw [hnil] at h; cases h]
      exact h
    split
    · rename_i hopen
      rw [String.toList_append]
      rcases hopen with hempty | hslash
      · rw [hempty]
        exact h
      · obtain ⟨front, hfront⟩ := List.getLast?_eq_some_iff.mp hslash
        rw [hfront, List.append_assoc]
        exact hcut front
    · rw [String.toList_append, String.toList_append, List.append_assoc]
      exact hcut p.text.toList

theorem fileName?_of_parts (h : p.parts = q.parts) : p.fileName? = q.fileName? := by
  unfold fileName?
  rw [h]

theorem route_of_fileName? (h : p.fileName? = some name) : ∃ init, p.route = init ++ [name] := by
  obtain ⟨init, hinit⟩ := List.getLast?_eq_some_iff.mp (fileName?_eq_some.mp h)
  exact ⟨resolveParts [] init, by unfold route; rw [hinit, resolveParts_concat]⟩

/-- The location without slashes, and parts that are a dot, at its end. -/
def trimmed (p : Location) : Location := ⟨String.ofList (dropIdleEnd p.text.toList.reverse).reverse⟩

theorem toList_trimmed (p : Location) : p.trimmed.text.toList = (dropIdleEnd p.text.toList.reverse).reverse :=
  String.toList_ofList

/-- Slashes alone lead to the root. -/
theorem parts_of_slashes {slashes idle : List Char} (h : ∀ c ∈ slashes, c = '/') (hidle : partOf idle = none)
    (hwhole : ∀ c ∈ idle, (c == '/') = false) (hp : p.text.toList = '/' :: (slashes ++ idle)) : p.parts = [.root] := by
  rw [parts_absolute hp]
  clear hp
  refine congrArg (Part.root :: ·) ?_
  unfold steps Text.splitChars
  induction slashes with
  | nil =>
    rw [List.nil_append, Text.splitWhere_of_forall hwhole]
    exact List.filterMap_cons_none hidle
  | cons c rest ih =>
    obtain ⟨rfl, hrest⟩ := List.forall_mem_cons.mp h
    exact ih hrest

theorem parts_of_slash (h : q.text.toList = ['/']) : q.parts = [.root] :=
  parts_of_slashes (List.forall_mem_nil _) rfl (List.forall_mem_nil _) h

theorem reverse_slashes {rest : List Char} (h : rest.all (· == '/') = true) (idle : List Char) :
    ∃ slashes, (∀ c ∈ slashes, c = '/') ∧ rest.reverse ++ '/' :: idle = '/' :: slashes ++ idle := by
  have hall : ∀ c ∈ rest, c = '/' := fun c hc => eq_of_beq (List.all_eq_true.mp h c hc)
  have hrest : rest = List.replicate rest.length '/' := List.eq_replicate_iff.mpr ⟨rfl, hall⟩
  refine ⟨rest.reverse, fun c hc => hall c (List.mem_reverse.mp hc), ?_⟩
  rw [hrest, List.reverse_replicate, List.append_cons, ← List.replicate_succ', List.replicate_succ]

theorem parts_dropIdleEnd {rev : List Char} (hp : p.text.toList = rev.reverse)
    (hq : q.text.toList = (dropIdleEnd rev).reverse) : q.parts = p.parts := by
  induction rev using dropIdleEnd.induct generalizing p with
  | case1 rest hall =>
    rw [dropIdleEnd, if_pos hall] at hq
    obtain ⟨slashes, hslashes, heq⟩ := reverse_slashes hall []
    rw [List.reverse_cons, heq] at hp
    rw [parts_of_slashes hslashes rfl (List.forall_mem_nil _) hp, parts_of_slash hq]
  | case2 rest hall ih =>
    rw [dropIdleEnd, if_neg hall] at hq
    have hne : rest.reverse ≠ [] := fun hnil => hall (by rw [List.reverse_eq_nil_iff.mp hnil]; rfl)
    rw [ih (p := ⟨String.ofList rest.reverse⟩) String.toList_ofList hq]
    exact ((parts_of_cut String.toList_ofList hne (hp.trans List.reverse_cons)).trans (List.append_nil _)).symm
  | case3 rest hall =>
    rw [dropIdleEnd, if_pos hall] at hq
    obtain ⟨slashes, hslashes, heq⟩ := reverse_slashes hall ['.']
    rw [List.reverse_cons, List.reverse_cons, List.append_assoc] at hp
    rw [parts_of_slashes hslashes rfl (by simp) (hp.trans heq), parts_of_slash hq]
  | case4 rest hall ih =>
    rw [dropIdleEnd, if_neg hall] at hq
    have hne : rest.reverse ≠ [] := fun hnil => hall (by rw [List.reverse_eq_nil_iff.mp hnil]; rfl)
    rw [ih (p := ⟨String.ofList rest.reverse⟩) String.toList_ofList hq]
    rw [List.reverse_cons, List.reverse_cons, List.append_assoc] at hp
    exact ((parts_of_cut String.toList_ofList hne hp).trans (List.append_nil _)).symm
  | case5 other h1 h2 =>
    rw [dropIdleEnd] at hq
    · unfold parts isAbsolute
      rw [hp, hq]
    · exact h1
    · exact h2

theorem parts_trimmed (p : Location) : p.trimmed.parts = p.parts :=
  parts_dropIdleEnd (List.reverse_reverse _).symm p.toList_trimmed

/-- What is left of a text has no idle piece at its end. -/
theorem dropIdleEnd_cases (rev : List Char) :
    dropIdleEnd rev = ['/'] ∨ ∀ rest, dropIdleEnd rev ≠ '/' :: rest ∧ dropIdleEnd rev ≠ '.' :: '/' :: rest := by
  induction rev using dropIdleEnd.induct with
  | case1 rest hall => exact .inl (by rw [dropIdleEnd, if_pos hall])
  | case2 rest hall ih =>
    rw [dropIdleEnd, if_neg hall]
    exact ih
  | case3 rest hall => exact .inl (by rw [dropIdleEnd, if_pos hall])
  | case4 rest hall ih =>
    rw [dropIdleEnd, if_neg hall]
    exact ih
  | case5 other h1 h2 =>
    rw [dropIdleEnd]
    · exact .inr fun rest => ⟨h1 rest, h2 rest⟩
    · exact h1
    · exact h2

/-- A text is its last piece, which stands behind a separator if it does not stand alone. -/
theorem exists_last_piece (cs : List Char) : ∃ init last front, Text.splitChars '/' cs = init ++ [last] ∧
    (∀ c ∈ last, (c == '/') = false) ∧ cs = front ++ last ∧ (front = [] ∨ front.getLast? = some '/') := by
  obtain ⟨init, last, hlast⟩ : ∃ init last, Text.splitChars '/' cs = init ++ [last] :=
    (List.eq_nil_or_concat' _).resolve_left (Text.splitChars_ne_nil '/' _)
  have hwhole : ∀ c ∈ last, (c == '/') = false := Text.mem_splitWhere (by
    show last ∈ Text.splitChars '/' cs
    rw [hlast]
    exact List.mem_append_right _ (List.mem_singleton_self _))
  have hjoin := Text.intercalate_splitChars '/' cs
  rw [hlast] at hjoin
  cases init with
  | nil =>
    rw [List.nil_append, List.intercalate_singleton] at hjoin
    exact ⟨[], last, [], hlast, hwhole, hjoin.symm, .inl rfl⟩
  | cons first rest =>
    rw [Text.intercalate_concat (List.cons_ne_nil _ _)] at hjoin
    refine ⟨first :: rest, last, ['/'].intercalate (first :: rest) ++ ['/'], hlast, hwhole, ?_, .inr List.getLast?_concat⟩
    rw [← hjoin, List.append_assoc]
    rfl

/-- What stands behind a separator at the end of a trimmed text is not idle. -/
theorem partOf_trimmed_ne_none {front last : List Char} (htext : p.trimmed.text.toList = front ++ last)
    (hopen : front.getLast? = some '/') (hname : p.trimmed.fileName? = some name) : partOf last ≠ none := by
  intro hidle
  obtain ⟨front, rfl⟩ := List.getLast?_eq_some_iff.mp hopen
  have hrev : dropIdleEnd p.text.toList.reverse = last.reverse ++ '/' :: front.reverse := by
    rw [← List.reverse_concat, ← List.reverse_append, ← htext, toList_trimmed, List.reverse_reverse]
  rcases dropIdleEnd_cases p.text.toList.reverse with hroot | hends
  · -- The root alone has no name.
    rw [fileName?_iff_steps, toList_trimmed, hroot] at hname
    cases hname
  · unfold partOf at hidle
    split at hidle
    · rename_i h
      rcases h with rfl | rfl
      · exact (hends _).1 hrev
      · exact (hends _).2 hrev
    · split at hidle <;> cases hidle

/-- A location that ends in a name is this name in a directory, up to what stands at its end. -/
theorem trimmed_of_fileName? (h : p.fileName? = some name) :
    ∃ front, p.trimmed.text.toList = front ++ name.toList ∧ (front = [] ∨ front.getLast? = some '/') := by
  have hname : p.trimmed.fileName? = some name := (fileName?_of_parts p.parts_trimmed).trans h
  obtain ⟨init, last, front, hlast, hwhole, hfront, hopen⟩ := exists_last_piece p.trimmed.text.toList
  have hsteps := fileName?_iff_steps.mp hname
  unfold steps at hsteps
  have hpart : partOf last ≠ none := by
    rcases hopen with rfl | hopen
    · intro hidle
      rw [hfront, List.nil_append, Text.splitChars, Text.splitWhere_of_forall hwhole,
        List.filterMap_cons_none hidle] at hsteps
      cases hsteps
    · exact partOf_trimmed_ne_none hfront hopen hname
  obtain ⟨part, hpart⟩ := Option.ne_none_iff_exists'.mp hpart
  rw [hlast, List.filterMap_append, List.filterMap_cons_some hpart, List.filterMap_nil, List.getLast?_concat] at hsteps
  cases hsteps
  refine ⟨front, ?_, hopen⟩
  unfold partOf at hpart
  split at hpart
  · cases hpart
  · split at hpart
    · cases hpart
    · cases hpart
      rw [hfront, String.toList_ofList]

/-- Parts before a name are those of the directory. -/
theorem parts_of_front {front : List Char} (hopen : front = [] ∨ front.getLast? = some '/') (hname : IsName name)
    (hp : p.text.toList = front ++ name.toList) : p.parts = parts ⟨String.ofList front⟩ ++ [.name name] := by
  rw [← parts_join ⟨String.ofList front⟩ hname]
  refine congrArg parts (ext_toList ?_)
  unfold join
  rw [if_neg (by rw [hname.relative]; exact Bool.false_ne_true), if_pos (hopen.imp (congrArg String.ofList) fun h => by
    rw [String.toList_ofList]; exact h), String.toList_append, String.toList_ofList]
  exact hp

/-! ### Extensions -/

/-- What an extension follows is not empty. -/
theorem splitName_cases (name : String) :
    splitName name = (name, none) ∨ ∃ stem old, stem ≠ [] ∧ name.toList = stem ++ '.' :: old ∧
      splitName name = (String.ofList stem, some (String.ofList old)) := by
  unfold splitName
  dsimp only
  split
  · rename_i extension stem hcut
    have hname := Text.cutAt?_eq_some hcut
    split
    · exact .inl rfl
    · rename_i hstem
      refine .inr ⟨stem.reverse, extension.reverse, mt List.reverse_eq_nil_iff.mp hstem, ?_, rfl⟩
      rw [← List.reverse_reverse name.toList, hname]
      simp
  · exact .inl rfl

/-- There is no separator in a stem, nor in what stands for it. -/
theorem stem_whole (p : Location) {other : String} (h : ∀ c ∈ other.toList, (c == '/') = false) :
    ∀ c ∈ (p.stem?.getD other).toList, (c == '/') = false := by
  unfold stem?
  cases hname : p.fileName? with
  | none => exact h
  | some name =>
    have hwhole : ∀ c ∈ name.toList, (c == '/') = false := (isName_of_fileName? hname).whole
    show ∀ c ∈ (splitName name).1.toList, (c == '/') = false
    rcases splitName_cases name with hsplit | ⟨stem, old, -, hlist, hsplit⟩ <;> rw [hsplit]
    · exact hwhole
    · rw [String.toList_ofList]
      exact fun c hc => hwhole c (hlist ▸ List.mem_append_left _ hc)

theorem isName_of_length {s : String} (hlength : 3 ≤ s.toList.length) (hwhole : ∀ c ∈ s.toList, (c == '/') = false) :
    IsName s := by
  refine ⟨?_, hwhole⟩
  unfold partOf
  rw [if_neg, if_neg, String.ofList_toList]
  · intro h
    rw [h] at hlength
    exact absurd hlength (by decide)
  · rintro (h | h) <;> rw [h] at hlength <;> exact absurd hlength (by decide)

/-- With another extension, a location differs in its last name at most. -/
theorem parts_withExtension (h : p.fileName? = some name) (hne : extension ≠ "") (hwhole : '/' ∉ extension.toList) :
    ∃ init, p.parts = init ++ [.name name] ∧
      (p.withExtension extension).parts = init ++ [.name ((splitName name).1 ++ "." ++ extension)] := by
  obtain ⟨front, hfront, hopen⟩ := trimmed_of_fileName? h
  have hname := isName_of_fileName? h
  have hrev : dropIdleEnd p.text.toList.reverse = name.toList.reverse ++ front.reverse := by
    rw [← List.reverse_append, ← hfront, toList_trimmed, List.reverse_reverse]
  have hextension : 0 < extension.toList.length := List.length_pos_iff.mpr fun hnil => hne (String.toList_inj.mp hnil)
  have hstem : ∃ stem, stem ≠ [] ∧ (∀ c ∈ stem, (c == '/') = false) ∧ (splitName name).1 = String.ofList stem ∧
      (p.withExtension extension).text.toList = front ++ (stem ++ '.' :: extension.toList) := by
    unfold withExtension extension?
    rw [h, if_neg (by simp), hrev, if_neg hne]
    dsimp only [Option.bind_some]
    rcases splitName_cases name with hsplit | ⟨stem, old, hstem, hlist, hsplit⟩ <;> rw [hsplit]
    · exact ⟨name.toList, hname.ne_nil, hname.whole, String.ofList_toList.symm, by simp⟩
    · refine ⟨stem, hstem, fun c hc => hname.whole c (hlist ▸ List.mem_append_left _ hc), rfl, ?_⟩
      have hold : List.drop (old.length + 1) (old.reverse ++ '.' :: (stem.reverse ++ front.reverse)) =
          stem.reverse ++ front.reverse := by
        rw [List.append_cons]
        exact List.drop_left' (by simp)
      simp [hlist, hold]
  obtain ⟨stem, hne', hslash, hfirst, htext⟩ := hstem
  have hlist : ((splitName name).1 ++ "." ++ extension).toList = stem ++ '.' :: extension.toList := by
    simp [hfirst]
  refine ⟨_, p.parts_trimmed.symm.trans (parts_of_front hopen hname hfront),
    parts_of_front hopen (isName_of_length ?_ ?_) (htext.trans (congrArg (front ++ ·) hlist.symm))⟩
  · have hpositive : 0 < stem.length := List.length_pos_iff.mpr hne'
    rw [hlist, List.length_append, List.length_cons]
    omega
  · rw [hlist]
    intro c hc
    rcases List.mem_append.mp hc with hc | hc
    · exact hslash c hc
    · rcases List.mem_cons.mp hc with rfl | hc
      · rfl
      · exact beq_false_of_ne fun he => hwhole (he ▸ hc)

end

end Location

end Bitpress
