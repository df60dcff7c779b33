import Bitpress.Text.Cut
import Mathlib.Data.List.Basic

/-!
Texts that are cut at a character.

Pieces without the character are found again between its places
(`splitWhere_intercalate`), and the pieces of a text make up the text
(`intercalate_splitChars`). A text written line by line is read line by line
(`lineChars_flatMap`).
-/

namespace Bitpress.Text

/-! ### Cutting at characters -/

variable {p : Char → Bool} {cs : List Char}

theorem mem_splitWhere {piece : List Char} (h : piece ∈ splitWhere p cs) : ∀ c ∈ piece, p c = false := by
  induction cs generalizing piece with
  | nil =>
    rw [List.mem_singleton.mp h]
    exact fun c hc => by cases hc
  | cons first rest ih =>
    unfold splitWhere at h
    split at h
    · rcases List.mem_cons.mp h with rfl | h
      · exact fun c hc => by cases hc
      · exact ih h
    · rename_i hfirst
      split at h
      · rw [List.mem_singleton.mp h]
        exact List.forall_mem_singleton.mpr (Bool.eq_false_iff.mpr hfirst)
      · rename_i inner pieces hrest
        rw [hrest] at ih
        rcases List.mem_cons.mp h with rfl | h
        · exact List.forall_mem_cons.mpr ⟨Bool.eq_false_iff.mpr hfirst, ih (List.mem_cons_self ..)⟩
        · exact ih (List.mem_cons_of_mem _ h)

/-- A piece stands in the text, and the first one at its front. -/
theorem isInfix_of_splitWhere (p : Char → Bool) (cs : List Char) :
    (∀ piece ∈ (splitWhere p cs).head?, piece <+: cs) ∧ ∀ piece ∈ splitWhere p cs, piece <:+: cs := by
  induction cs with
  | nil => exact ⟨fun _ h => by cases h; exact List.prefix_refl _, fun _ h => List.mem_singleton.mp h ▸ List.infix_refl _⟩
  | cons c rest ih =>
    obtain ⟨hfirst, hall⟩ := ih
    unfold splitWhere
    split
    · refine ⟨fun _ h => by cases h; exact List.nil_prefix, List.forall_mem_cons.mpr ⟨List.nil_infix, fun piece h => ?_⟩⟩
      exact (hall piece h).trans (List.suffix_cons c rest).isInfix
    · split
      · have hsingle : [c] <+: c :: rest := List.prefix_append [c] rest
        exact ⟨fun _ h => by cases h; exact hsingle, fun _ h => List.mem_singleton.mp h ▸ hsingle.isInfix⟩
      · rename_i piece pieces hpieces
        rw [hpieces] at hfirst hall
        have hcons : c :: piece <+: c :: rest := List.cons_prefix_cons.mpr ⟨rfl, hfirst piece rfl⟩
        refine ⟨fun _ h => by cases h; exact hcons, List.forall_mem_cons.mpr ⟨hcons.isInfix, fun piece' h => ?_⟩⟩
        exact (hall piece' (List.mem_cons_of_mem _ h)).trans (List.suffix_cons c rest).isInfix

theorem splitWhere_of_forall (h : ∀ c ∈ cs, p c = false) : splitWhere p cs = [cs] := by
  induction cs with
  | nil => rfl
  | cons first rest ih =>
    obtain ⟨hfirst, hrest⟩ := List.forall_mem_cons.mp h
    unfold splitWhere
    rw [if_neg (Bool.eq_false_iff.mp hfirst), ih hrest]

/-- A separator cuts a text in two. -/
theorem splitWhere_cut {sep : Char} (hsep : p sep = true) (cs rest : List Char) :
    splitWhere p (cs ++ sep :: rest) = splitWhere p cs ++ splitWhere p rest := by
  induction cs with
  | nil =>
    show splitWhere p (sep :: rest) = [] :: splitWhere p rest
    rw [splitWhere, if_pos hsep]
  | cons first more ih =>
    rw [List.cons_append, splitWhere, splitWhere, ih]
    split
    · rfl
    · cases hmore : splitWhere p more with
      | nil => exact absurd hmore (splitWhere_ne_nil p more)
      | cons piece pieces => rfl

theorem splitWhere_append (h : ∀ c ∈ cs, p c = false) {sep : Char} (hsep : p sep = true) (rest : List Char) :
    splitWhere p (cs ++ sep :: rest) = cs :: splitWhere p rest := by
  rw [splitWhere_cut hsep, splitWhere_of_forall h]
  rfl

/-- A text without separators in front is the beginning of the first piece. -/
theorem head?_splitWhere_append (h : ∀ c ∈ cs, p c = false) (rest : List Char) :
    ∃ piece, (splitWhere p (cs ++ rest)).head? = some (cs ++ piece) := by
  induction cs with
  | nil =>
    obtain ⟨piece, pieces, hpieces⟩ := List.exists_cons_of_ne_nil (splitWhere_ne_nil p rest)
    exact ⟨piece, congrArg List.head? hpieces⟩
  | cons c more ih =>
    obtain ⟨hc, hmore⟩ := List.forall_mem_cons.mp h
    obtain ⟨piece, hpiece⟩ := ih hmore
    obtain ⟨pieces, hpieces⟩ := List.head?_eq_some_iff.mp hpiece
    refine ⟨piece, ?_⟩
    rw [List.cons_append, splitWhere, if_neg (Bool.eq_false_iff.mp hc), hpieces]
    rfl

/-- Pieces without separators are found again between them. -/
theorem splitWhere_intercalate {sep : Char} (hsep : p sep = true) {pieces : List (List Char)} (hne : pieces ≠ [])
    (h : ∀ piece ∈ pieces, ∀ c ∈ piece, p c = false) :
    splitWhere p ([sep].intercalate pieces) = pieces := by
  induction pieces with
  | nil => exact absurd rfl hne
  | cons first rest ih =>
    obtain ⟨hfirst, hrest⟩ := List.forall_mem_cons.mp h
    cases rest with
    | nil =>
      rw [List.intercalate_singleton]
      exact splitWhere_of_forall hfirst
    | cons second more =>
      rw [List.intercalate_cons_cons, List.append_assoc, List.singleton_append, splitWhere_append hfirst hsep,
        ih (List.cons_ne_nil _ _) hrest]

theorem intercalate_concat {sep : Char} {pieces : List (List Char)} (hne : pieces ≠ []) (piece : List Char) :
    [sep].intercalate (pieces ++ [piece]) = [sep].intercalate pieces ++ sep :: piece := by
  induction pieces with
  | nil => exact absurd rfl hne
  | cons first rest ih =>
    cases rest with
    | nil => simp [List.intercalate_cons_cons]
    | cons second more =>
      rw [List.cons_append, List.cons_append, List.intercalate_cons_cons, ← List.cons_append, ih (List.cons_ne_nil _ _),
        List.intercalate_cons_cons, List.append_assoc, List.append_assoc, List.append_assoc]

/-- What a text is cut into makes it up. -/
theorem intercalate_splitChars (sep : Char) (cs : List Char) : [sep].intercalate (splitChars sep cs) = cs := by
  unfold splitChars
  induction cs with
  | nil => rfl
  | cons c rest ih =>
    have hne : splitWhere (· == sep) rest ≠ [] := splitWhere_ne_nil _ rest
    unfold splitWhere
    split
    · rename_i hc
      obtain ⟨piece, pieces, hpieces⟩ := List.exists_cons_of_ne_nil hne
      rw [hpieces, List.intercalate_cons_cons, ← hpieces, ih, eq_of_beq hc]
      rfl
    · split
      · rename_i hnil
        exact absurd hnil hne
      · rename_i piece pieces hpieces
        rw [hpieces] at ih
        cases pieces with
        | nil =>
          rw [List.intercalate_singleton] at ih ⊢
          rw [ih]
        | cons second more =>
          rw [List.intercalate_cons_cons] at ih ⊢
          rw [List.cons_append, List.cons_append, ← ih]

theorem flatMap_concat_eq {sep : Char} {pieces : List (List Char)} (hne : pieces ≠ []) :
    (pieces.flatMap fun piece => piece ++ [sep]) = [sep].intercalate pieces ++ [sep] := by
  induction pieces with
  | nil => exact absurd rfl hne
  | cons first rest ih =>
    cases rest with
    | nil => rw [List.flatMap_singleton, List.intercalate_singleton]
    | cons second more =>
      rw [List.flatMap_cons, ih (List.cons_ne_nil _ _), List.intercalate_cons_cons, ← List.append_assoc]

/-! ### Cutting at a word -/

section Word

variable {word rest : List Char}

theorem after?_eq_some_iff : after? word cs = some rest ↔ cs = word ++ rest :=
  ⟨after?_eq_some, fun h => h ▸ after?_append word rest⟩

theorem after?_eq_none_iff : after? word cs = none ↔ ¬ word <+: cs := by
  rw [Option.eq_none_iff_forall_ne_some]
  constructor
  · rintro h ⟨rest, rfl⟩
    exact h rest (after?_append word rest)
  · rintro h rest hrest
    exact h ⟨rest, (after?_eq_some hrest).symm⟩

/-- What stands behind the first word is found by looking for it at one place after the other. -/
theorem map_snd_cutAt? (word cs : List Char) : (cutAt? word cs).map Prod.snd = cs.tails.findSome? (after? word) := by
  induction cs with
  | nil =>
    unfold cutAt?
    rw [List.tails, List.findSome?_singleton]
    cases after? word [] <;> rfl
  | cons c rest ih =>
    unfold cutAt?
    rw [List.tails, List.findSome?_cons]
    cases after? word (c :: rest) with
    | some _ => rfl
    | none =>
      dsimp only
      rw [← ih, Option.map_map]
      rfl

end Word

section Cut

variable {c : Char} {word before : List Char}

theorem after?_of_ne {a : Char} {cs : List Char} (h : a ≠ c) : after? (c :: word) (a :: cs) = none := by
  simp [after?, Ne.symm h]

theorem cutAt?_of_not_mem (h : c ∉ before) : cutAt? (c :: word) before = none := by
  induction before with
  | nil => rfl
  | cons a rest ih =>
    obtain ⟨ha, hrest⟩ := not_or.mp (mt List.mem_cons.mpr h)
    unfold cutAt?
    rw [after?_of_ne (Ne.symm ha)]
    dsimp only
    rw [ih hrest]
    rfl

theorem cutAt?_append (h : c ∉ before) (rest : List Char) :
    cutAt? (c :: word) (before ++ (c :: word ++ rest)) = some (before, rest) := by
  induction before with
  | nil =>
    rw [List.nil_append]
    unfold cutAt?
    rw [after?_append]
  | cons a before ih =>
    obtain ⟨ha, hbefore⟩ := not_or.mp (mt List.mem_cons.mpr h)
    rw [List.cons_append]
    unfold cutAt?
    rw [after?_of_ne (Ne.symm ha)]
    dsimp only
    rw [ih hbefore]
    rfl

end Cut

/-! ### Lines -/

/-- A text that is one line as it is written. -/
structure IsLine (cs : List Char) : Prop where
  whole : '\n' ∉ cs
  bare : cs.getLast? ≠ some '\r'

instance (cs : List Char) : Decidable (IsLine cs) :=
  decidable_of_iff ('\n' ∉ cs ∧ cs.getLast? ≠ some '\r') ⟨fun h => ⟨h.1, h.2⟩, fun h => ⟨h.whole, h.bare⟩⟩

/-- Lines that are written one after the other are read again. -/
theorem lineChars_flatMap {ls : List (List Char)} (h : ∀ l ∈ ls, IsLine l) :
    lineChars (ls.flatMap fun l => l ++ ['\n']) = ls := by
  have hpieces : splitChars '\n' (ls.flatMap fun l => l ++ ['\n']) = ls ++ [[]] := by
    unfold splitChars
    induction ls with
    | nil => rfl
    | cons l rest ih =>
      obtain ⟨hl, hrest⟩ := List.forall_mem_cons.mp h
      have hfree : ∀ c ∈ l, (c == '\n') = false := fun c hc => by
        refine beq_false_of_ne fun he => hl.whole (he ▸ hc)
      rw [List.flatMap_cons, List.append_assoc, List.singleton_append, splitWhere_append hfree (beq_self_eq_true _),
        ih hrest]
      rfl
  have hbare : ls.map (fun line => if line.getLast? = some '\r' then line.dropLast else line) = ls := by
    refine (List.map_congr_left fun l hl => ?_).trans (List.map_id ls)
    exact if_neg (h l hl).bare
  unfold lineChars
  simp only [hpieces, List.dropLast_concat, List.getLast?_concat, hbare, List.append_nil]

theorem isLine_of_mem_splitChars {cs piece : List Char} (h : '\r' ∉ cs) (hpiece : piece ∈ splitChars '\n' cs) :
    IsLine piece := by
  refine ⟨fun hc => ?_, fun hlast => h ?_⟩
  · exact absurd (mem_splitWhere hpiece '\n' hc) (by decide)
  · exact ((isInfix_of_splitWhere _ _).2 piece hpiece).subset (List.mem_of_getLast? hlast)

/-- The lines of a text that ends with a break and has no carriage returns make up the text. -/
theorem lineChars_concat {cs : List Char} (h : '\r' ∉ cs) : lineChars (cs ++ ['\n']) = splitChars '\n' cs := by
  have hjoin := @flatMap_concat_eq '\n' _ (splitChars_ne_nil '\n' cs)
  rw [intercalate_splitChars] at hjoin
  rw [← hjoin]
  exact lineChars_flatMap fun piece hpiece => isLine_of_mem_splitChars h hpiece

end Bitpress.Text
