import Bitpress.Tree.Interpolate

/-!
References in trees.

A reference is a name in braces behind a dollar sign, with white space around the
name if one likes (`Refers`). A text is filled from its left end: where a
reference starts it is taken whole, and what stands for it is not looked at again;
a character where none starts stays (`FilledText`). What filling makes of a text is
the one text that this allows (`filledText_iff`), and of a tree the one tree of the
same shape in which that has been done to the texts (`Tree.filled_iff`).
-/

namespace Bitpress

namespace Variables

variable {vars : Variables} {name value : String} {c : Char} {text out inner rest written : List Char}

/-! ### References -/

/-- A letter or underscore, then letters, digits, underscores, points and hyphens. -/
def IsName : List Char → Prop
  | [] => False
  | c :: rest => (c.isAlpha ∨ c = '_') ∧ ∀ d ∈ rest, d.isAlphanum ∨ d = '_' ∨ d = '.' ∨ d = '-'

/-- What a reference to a name may look like. -/
def Refers (name : String) (written : List Char) : Prop :=
  IsName name.toList ∧ ∃ before after : List Char, (∀ c ∈ before, Text.isBlank c) ∧ (∀ c ∈ after, Text.isBlank c) ∧
    written = '$' :: '\x7b' :: (before ++ (name.toList ++ (after ++ ['\x7d'])))

theorem startsName_iff : startsName c ↔ c.isAlpha ∨ c = '_' := by
  simp [startsName]

theorem continuesName_iff : continuesName c ↔ c.isAlphanum ∨ c = '_' ∨ c = '.' ∨ c = '-' := by
  simp [continuesName, or_assoc]

theorem continuesName_of_startsName (h : startsName c) : continuesName c := by
  rw [continuesName_iff]
  rcases startsName_iff.mp h with h | h
  · exact .inl (by simp [Char.isAlphanum, h])
  · exact .inr (.inl h)

theorem code_between {first last : UInt32} (h : first ≤ c.val ∧ c.val ≤ last) :
    first.toNat ≤ c.toNat ∧ c.toNat ≤ last.toNat :=
  h.imp UInt32.le_iff_toNat_le.mp UInt32.le_iff_toNat_le.mp

/-- White space ends a name. -/
theorem not_isBlank_of_continuesName (h : continuesName c) : Text.isBlank c = false := by
  have hcode : (48 ≤ c.toNat ∧ c.toNat ≤ 57) ∨ (65 ≤ c.toNat ∧ c.toNat ≤ 90) ∨ (97 ≤ c.toNat ∧ c.toNat ≤ 122) ∨
      c.toNat = 95 ∨ c.toNat = 46 ∨ c.toNat = 45 := by
    have hboth : ∀ {p q : Prop} [Decidable p] [Decidable q], (decide p && decide q) = true → p ∧ q := fun h =>
      (Bool.and_eq_true_iff.mp h).imp of_decide_eq_true of_decide_eq_true
    rcases continuesName_iff.mp h with h | rfl | rfl | rfl
    · rcases (Bool.or_eq_true _ _).mp h with hletter | hdigit
      · rcases (Bool.or_eq_true _ _).mp hletter with hupper | hlower
        · exact .inr (.inl (code_between (of_decide_eq_true hupper)))
        · exact .inr (.inr (.inl (code_between (hboth hlower))))
      · exact .inl (code_between (hboth hdigit))
    all_goals decide
  rw [Bool.eq_false_iff]
  simp only [Text.isBlank, ne_eq, Bool.or_eq_true, Bool.and_eq_true, decide_eq_true_eq, beq_iff_eq]
  omega

theorem not_continuesName_of_isBlank (h : Text.isBlank c) : continuesName c = false :=
  Bool.eq_false_iff.mpr fun hc => by simp [not_isBlank_of_continuesName hc] at h

section Names
variable {cs : List Char} (hcs : ∀ c ∈ cs, continuesName c) (hrest : ∀ c ∈ rest.head?, continuesName c = false)
include hcs hrest

theorem takeWhile_name : (cs ++ rest).takeWhile continuesName = cs := by
  rw [List.takeWhile_append_of_pos hcs]
  cases rest with
  | nil => simp
  | cons c rest => simp [hrest c rfl]

theorem dropWhile_name : (cs ++ rest).dropWhile continuesName = rest := by
  rw [List.dropWhile_append_of_pos hcs]
  cases rest with
  | nil => rfl
  | cons c rest => simp [hrest c rfl]

end Names

/-- What is skipped is white space. -/
theorem exists_of_skipBlanks (h : Text.skipBlanks text = rest) :
    ∃ blanks : List Char, (∀ c ∈ blanks, Text.isBlank c) ∧ text = blanks ++ rest :=
  ⟨text.takeWhile Text.isBlank, fun _ hc => List.all_eq_true.mp List.all_takeWhile _ hc,
    h ▸ List.takeWhile_append_dropWhile.symm⟩

theorem skipBlanks_append {blanks : List Char} (hblanks : ∀ c ∈ blanks, Text.isBlank c) (hc : Text.isBlank c = false) :
    Text.skipBlanks (blanks ++ c :: rest) = c :: rest := by
  unfold Text.skipBlanks
  rw [List.dropWhile_append_of_pos hblanks, List.dropWhile_cons_of_neg (by simp [hc])]

theorem refers_of_reference? (h : reference? inner = some (name, rest)) :
    ∃ written, Refers name ('$' :: '\x7b' :: written) ∧ inner = written ++ rest := by
  unfold reference? at h
  dsimp only at h
  split at h
  · cases h
  rename_i c more hskip
  split at h
  · rename_i hstart
    split at h
    · rename_i hclose
      cases h
      obtain ⟨before, hbefore, hinner⟩ := exists_of_skipBlanks hskip
      obtain ⟨after, hafter, htail⟩ := exists_of_skipBlanks hclose
      have hmore : more.takeWhile continuesName ++ (after ++ '\x7d' :: rest) = more :=
        htail ▸ List.takeWhile_append_dropWhile
      have hsplit : inner = before ++ c :: (more.takeWhile continuesName ++ (after ++ '\x7d' :: rest)) := by
        rw [hmore, hinner]
      refine ⟨before ++ ((c :: more.takeWhile continuesName) ++ (after ++ ['\x7d'])), ?_, by rw [hsplit]; simp⟩
      refine ⟨?_, before, after, hbefore, hafter, by rw [String.toList_ofList]⟩
      rw [String.toList_ofList]
      exact ⟨startsName_iff.mp hstart, fun d hd => continuesName_iff.mp (List.all_eq_true.mp List.all_takeWhile d hd)⟩
    · cases h
  · cases h

/-- The name of a reference ends where it is written to end: neither white space nor the brace goes on with it. -/
theorem reference?_of_refers (h : Refers name ('$' :: '\x7b' :: written)) (rest : List Char) :
    reference? (written ++ rest) = some (name, rest) := by
  obtain ⟨hname, before, after, hbefore, hafter, hwritten⟩ := h
  cases hlist : name.toList with
  | nil =>
    rw [hlist] at hname
    exact hname.elim
  | cons c more =>
    rw [hlist] at hname hwritten
    obtain rfl := (List.cons.inj (List.cons.inj hwritten).2).2
    have hstart : startsName c := startsName_iff.mpr hname.1
    have hmore : ∀ d ∈ more, continuesName d := fun d hd => continuesName_iff.mpr (hname.2 d hd)
    have hend : ∀ d ∈ (after ++ '\x7d' :: rest).head?, continuesName d = false := by
      intro d hd
      cases after with
      | nil =>
        cases hd
        decide
      | cons a after =>
        cases hd
        exact not_continuesName_of_isBlank (hafter d (List.mem_cons_self ..))
    have hsplit : before ++ (c :: more ++ (after ++ ['\x7d'])) ++ rest =
        before ++ c :: (more ++ (after ++ '\x7d' :: rest)) := by simp
    unfold reference?
    dsimp only
    rw [hsplit, skipBlanks_append hbefore (not_isBlank_of_continuesName (continuesName_of_startsName hstart))]
    dsimp only
    rw [if_pos hstart, takeWhile_name hmore hend, dropWhile_name hmore hend, skipBlanks_append hafter (by decide),
      ← hlist, String.ofList_toList]
    rfl

/-- What is read behind an opening brace is the inside of a reference, and nothing else is read. -/
theorem reference?_eq_some_iff : reference? inner = some (name, rest) ↔
    ∃ written, Refers name ('$' :: '\x7b' :: written) ∧ inner = written ++ rest := by
  refine ⟨refers_of_reference?, ?_⟩
  rintro ⟨written, hrefers, rfl⟩
  exact reference?_of_refers hrefers rest

theorem length_lt_of_reference? (h : reference? inner = some (name, rest)) : rest.length < inner.length := by
  obtain ⟨written, ⟨-, before, after, -, -, hwritten⟩, rfl⟩ := reference?_eq_some_iff.mp h
  have hlength := congrArg List.length hwritten
  simp only [List.length_cons, List.length_append, List.length_nil] at hlength ⊢
  omega

/-! ### Texts -/

/-- A text and what it is filled to, from the left: a reference to a known name gives the value of the name, any
other reference gives itself, and so does a character at which no reference starts. -/
inductive FilledText (vars : Variables) : List Char → List Char → Prop
  | nil : FilledText vars [] []
  | known {name : String} {value : String} {written rest out : List Char} (hrefers : Refers name written)
      (hvalue : vars.valueAt? name = some value) (hrest : FilledText vars rest out) :
      FilledText vars (written ++ rest) (value.toList ++ out)
  | unknown {name : String} {written rest out : List Char} (hrefers : Refers name written)
      (hvalue : vars.valueAt? name = none) (hrest : FilledText vars rest out) :
      FilledText vars (written ++ rest) (written ++ out)
  | plain {c : Char} {rest out : List Char} (hnone : ∀ name written, Refers name written → ¬ written <+: c :: rest)
      (hrest : FilledText vars rest out) : FilledText vars (c :: rest) (c :: out)

theorem pieces_reference (h : Refers name written) (rest : List Char) :
    pieces (written ++ rest) = .reference name written :: pieces rest := by
  obtain ⟨before, after, -, -, rfl⟩ := h.2
  generalize hinner : before ++ (name.toList ++ (after ++ ['\x7d'])) = inner at h ⊢
  have hread : reference? (inner ++ rest) = some (name, rest) := reference?_of_refers h rest
  rw [List.cons_append, List.cons_append, pieces, hread]
  dsimp only
  rw [if_pos (length_lt_of_reference? hread)]
  simp

theorem pieces_plain (h : ∀ name written, Refers name written → ¬ written <+: c :: rest) :
    pieces (c :: rest) = .plain c :: pieces rest := by
  rw [pieces.eq_def]
  split
  · rename_i hnil
    cases hnil
  · rename_i inner heq
    cases heq
    split
    · rename_i name after hread
      obtain ⟨written, hrefers, rfl⟩ := reference?_eq_some_iff.mp hread
      exact absurd ⟨after, rfl⟩ (h _ _ hrefers)
    · rfl
  · rename_i heq
    cases heq
    rfl

theorem FilledText.reference (h : Refers name written) (hrest : FilledText vars rest out) :
    FilledText vars (written ++ rest) (Piece.fill vars (.reference name written) ++ out) := by
  rw [Piece.fill]
  cases hvalue : vars.valueAt? name with
  | none => exact .unknown h hvalue hrest
  | some value => exact .known h hvalue hrest

/-- A text has one cut from the left, and with it one text that it is filled to. -/
theorem filledText_iff : FilledText vars text out ↔ out = (pieces text).flatMap (Piece.fill vars) := by
  constructor
  · intro h
    induction h with
    | nil =>
      rw [pieces]
      rfl
    | known hrefers hvalue _ ih =>
      rw [pieces_reference hrefers, List.flatMap_cons, ← ih, Piece.fill, hvalue]
    | unknown hrefers hvalue _ ih =>
      rw [pieces_reference hrefers, List.flatMap_cons, ← ih, Piece.fill, hvalue]
    | plain hnone _ ih =>
      rw [pieces_plain hnone, List.flatMap_cons, ← ih]
      rfl
  · rintro rfl
    fun_induction pieces text with
    | case1 => exact .nil
    | case2 inner name after hread hshort ih =>
      obtain ⟨written, hrefers, rfl⟩ := reference?_eq_some_iff.mp hread
      have hwritten : (written ++ after).take ((written ++ after).length - after.length) = written := by simp
      rw [hwritten]
      exact .reference hrefers ih
    | case3 inner name after hread hshort =>
      exact absurd (length_lt_of_reference? hread) hshort
    | case4 inner hread ih =>
      refine .plain ?_ ih
      rintro name written hrefers ⟨after, hafter⟩
      obtain ⟨-, before, behind, -, -, rfl⟩ := id hrefers
      have hinner : before ++ (name.toList ++ (behind ++ ['\x7d'])) ++ after = inner :=
        (List.cons.inj (List.cons.inj hafter).2).2
      rw [reference?_eq_some_iff.mpr ⟨_, hrefers, hinner.symm⟩] at hread
      cases hread
    | case5 c rest hother ih =>
      refine .plain ?_ ih
      rintro name written hrefers ⟨after, hafter⟩
      obtain ⟨-, before, behind, -, -, rfl⟩ := hrefers
      exact hother _ (List.cons.inj hafter).1.symm (List.cons.inj hafter).2.symm

theorem filledText_fill (vars : Variables) (s : String) : FilledText vars s.toList (vars.fill s).toList := by
  rw [fill, String.toList_ofList]
  exact filledText_iff.mpr rfl

theorem eq_fill {s r : String} (h : FilledText vars s.toList r.toList) : r = vars.fill s := by
  rw [fill, ← filledText_iff.mp h, String.ofList_toList]

theorem FilledText.eq_of_nil (h : FilledText [] text out) : out = text := by
  induction h with
  | nil => rfl
  | known _ hvalue => cases hvalue
  | unknown _ _ _ ih => rw [ih]
  | plain _ _ ih => rw [ih]

end Variables

/-! ### Trees -/

namespace Tree

mutual

/-- A tree and what it is filled to: its texts are filled, and all else stays. -/
inductive Filled (vars : Variables) : Tree → Tree → Prop
  | null : Filled vars .null .null
  | bool (b : Bool) : Filled vars (.bool b) (.bool b)
  | num (n : Number) : Filled vars (.num n) (.num n)
  | str {s r : String} (h : Variables.FilledText vars s.toList r.toList) : Filled vars (.str s) (.str r)
  | list {items items' : List Tree} (h : FilledItems vars items items') : Filled vars (.list items) (.list items')
  | map {entries entries' : List (String × Tree)} (h : FilledEntries vars entries entries') :
      Filled vars (.map entries) (.map entries')

inductive FilledItems (vars : Variables) : List Tree → List Tree → Prop
  | nil : FilledItems vars [] []
  | cons {t t' : Tree} {rest rest' : List Tree} (h : Filled vars t t') (hrest : FilledItems vars rest rest') :
      FilledItems vars (t :: rest) (t' :: rest')

inductive FilledEntries (vars : Variables) : List (String × Tree) → List (String × Tree) → Prop
  | nil : FilledEntries vars [] []
  | cons {key : String} {t t' : Tree} {rest rest' : List (String × Tree)} (h : Filled vars t t')
      (hrest : FilledEntries vars rest rest') : FilledEntries vars ((key, t) :: rest) ((key, t') :: rest')

end

section Trees
variable (vars : Variables)

mutual

theorem filled_fillStrings : (t : Tree) → Filled vars t (t.fillStrings vars)
  | .null => .null
  | .bool b => .bool b
  | .num n => .num n
  | .str s => .str (Variables.filledText_fill vars s)
  | .list items => .list (filledItems_fillItems items)
  | .map entries => .map (filledEntries_fillEntries entries)

theorem filledItems_fillItems : (items : List Tree) → FilledItems vars items (fillItems vars items)
  | [] => .nil
  | t :: rest => .cons (filled_fillStrings t) (filledItems_fillItems rest)

theorem filledEntries_fillEntries : (entries : List (String × Tree)) → FilledEntries vars entries (fillEntries vars entries)
  | [] => .nil
  | (_, t) :: rest => .cons (filled_fillStrings t) (filledEntries_fillEntries rest)

end

end Trees

variable {vars : Variables}

mutual

theorem Filled.eq : {t r : Tree} → Filled vars t r → r = t.fillStrings vars
  | _, _, .null => rfl
  | _, _, .bool _ => rfl
  | _, _, .num _ => rfl
  | _, _, .str h => congrArg Tree.str (Variables.eq_fill h)
  | _, _, .list h => congrArg Tree.list h.eq
  | _, _, .map h => congrArg Tree.map h.eq

theorem FilledItems.eq : {items items' : List Tree} → FilledItems vars items items' → items' = fillItems vars items
  | _, _, .nil => rfl
  | _, _, .cons h hrest => by rw [h.eq, hrest.eq, fillItems]

theorem FilledEntries.eq : {entries entries' : List (String × Tree)} → FilledEntries vars entries entries' →
    entries' = fillEntries vars entries
  | _, _, .nil => rfl
  | _, _, .cons h hrest => by rw [h.eq, hrest.eq, fillEntries]

end

mutual

/-- Where no variables are known, every reference stays. -/
theorem Filled.eq_of_nil : {t r : Tree} → Filled [] t r → r = t
  | _, _, .null => rfl
  | _, _, .bool _ => rfl
  | _, _, .num _ => rfl
  | _, _, .str h => congrArg Tree.str (String.toList_injective h.eq_of_nil)
  | _, _, .list h => congrArg Tree.list h.eq_of_nil
  | _, _, .map h => congrArg Tree.map h.eq_of_nil

theorem FilledItems.eq_of_nil : {items items' : List Tree} → FilledItems [] items items' → items' = items
  | _, _, .nil => rfl
  | _, _, .cons h hrest => by rw [h.eq_of_nil, hrest.eq_of_nil]

theorem FilledEntries.eq_of_nil : {entries entries' : List (String × Tree)} → FilledEntries [] entries entries' →
    entries' = entries
  | _, _, .nil => rfl
  | _, _, .cons h hrest => by rw [h.eq_of_nil, hrest.eq_of_nil]

end

theorem fillStrings_eq_interpolate (vars : Variables) (t : Tree) : t.fillStrings vars = t.interpolate vars := by
  cases vars with
  | nil => exact (filled_fillStrings [] t).eq_of_nil
  | cons e rest => rfl

theorem fillItems_eq (vars : Variables) (items : List Tree) : fillItems vars items = items.map (fillStrings vars) := by
  induction items with
  | nil => rfl
  | cons t rest ih => rw [fillItems, ih, List.map_cons]

theorem fillEntries_eq (vars : Variables) (entries : Table Tree) :
    fillEntries vars entries = entries.mapValues (fillStrings vars) := by
  induction entries with
  | nil => rfl
  | cons e rest ih =>
    rw [fillEntries, ih]
    rfl

/-- **Interpolation is one pass over the texts of a tree**: what it makes of a tree is what the tree is filled to, and
that alone. -/
theorem filled_iff (vars : Variables) (t r : Tree) : Filled vars t r ↔ r = t.interpolate vars := by
  rw [← fillStrings_eq_interpolate]
  exact ⟨Filled.eq, fun h => h ▸ filled_fillStrings vars t⟩

/-- What stands for a reference is not filled again, and a start that fails leaves the reference inside it. -/
example : interpolate [("a", "$\x7bb\x7d"), ("b", "B")] (.list [.str "$\x7ba\x7d$\x7bb", .str "$\x7b$\x7b b \x7d\x7d"]) =
    .list [.str "$\x7bb\x7d$\x7bb", .str "$\x7bB\x7d"] := by
  cbv

end Tree

end Bitpress
