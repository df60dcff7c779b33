import Bitpress.Document.Markdown
import Bitpress.Proofs.Lines
import Bitpress.Proofs.Yaml

/-!
Sections of Markdown text.

A code block is written with a fence that is longer than every run of backticks
in its text (`le_longestRun_of_isInfix`), so the section that it is written in goes
on behind it, whatever the text is (`Whole.block`). Lines that are neither section
marks nor fences end no section either; so a registry whose headers have no other
lines is read with the sections that it was written with (`sectionTexts_write`).

The mark behind a header stands on a line of its own because the header ends with a
line feed. YAML text that ends with another break does not, and a registry without
bits has an empty section behind its header (`sectionTexts_write_unclosed`).
-/

namespace Bitpress.Document.Markdown

variable {text line : String} {fragment : Option String} {ls ls' : List String}

/-! ### Runs of backticks -/

theorem le_longestRun_start (longest run : Nat) (cs : List Char) :
    longest ≤ longestRun longest run cs ∧ run ≤ longestRun longest run cs := by
  induction cs generalizing longest run with
  | nil => exact ⟨Nat.le_max_left .., Nat.le_max_right ..⟩
  | cons c rest ih =>
    unfold longestRun
    split
    · exact ⟨(ih longest (run + 1)).1, Nat.le_of_succ_le (ih longest (run + 1)).2⟩
    · have h := (ih (Nat.max longest run) 0).1
      exact ⟨Nat.le_trans (Nat.le_max_left ..) h, Nat.le_trans (Nat.le_max_right ..) h⟩

theorem le_longestRun_of_isPrefix {n : Nat} {cs : List Char} (h : List.replicate n '\u0060' <+: cs) (longest run : Nat) :
    run + n ≤ longestRun longest run cs := by
  induction n generalizing cs run with
  | zero => exact (le_longestRun_start longest run cs).2
  | succ n ih =>
    obtain ⟨rest, rfl⟩ := h
    have hrest := ih (List.prefix_append (List.replicate n '\u0060') rest) (run + 1)
    show _ ≤ longestRun longest run ('\u0060' :: (List.replicate n '\u0060' ++ rest))
    rw [longestRun, if_pos rfl]
    omega

theorem le_longestRun_of_isInfix {n : Nat} {cs : List Char} (h : List.replicate n '\u0060' <:+: cs) (longest run : Nat) :
    n ≤ longestRun longest run cs := by
  induction cs generalizing longest run with
  | nil =>
    rw [List.infix_nil] at h
    have : n = 0 := by simpa using congrArg List.length h
    omega
  | cons c rest ih =>
    rcases List.infix_cons_iff.mp h with h | h
    · exact Nat.le_trans (Nat.le_add_left ..) (le_longestRun_of_isPrefix h longest run)
    · unfold longestRun
      split
      · exact ih h _ _
      · exact ih h _ _

/-! ### Blocks, line by line -/

/-- How long the fence around a text is. -/
def fenceLength (text : String) : Nat := Nat.max (longestRun 0 0 text.toList) 2 + 1

def fence (text : String) : String := String.ofList (List.replicate (fenceLength text) '\u0060')

/-- The line that opens a block. -/
def opening (fragment : Option String) (text : String) : String :=
  fence text ++ sourceLanguage ++ (fragment.map fun f => " " ++ f).getD ""

def blockLines (fragment : Option String) (text : String) : List String :=
  opening fragment text :: Text.split '\n' text ++ [fence text]

theorem toList_unlines (ls : List String) : (unlines ls).toList = ls.flatMap fun l => l.toList ++ ['\n'] := by
  rw [unlines, String.toList_join, List.flatMap_map]
  exact List.flatMap_congr fun l _ => String.toList_append

theorem unlines_append (ls ls' : List String) : unlines (ls ++ ls') = unlines ls ++ unlines ls' := by
  rw [← String.toList_inj, String.toList_append, toList_unlines, toList_unlines, toList_unlines, List.flatMap_append]

theorem unlines_singleton (l : String) : unlines [l] = l ++ "\n" := by
  rw [← String.toList_inj, toList_unlines, List.flatMap_singleton, String.toList_append]
  rfl

theorem unlines_split (text : String) : unlines (Text.split '\n' text) = text ++ "\n" := by
  rw [← String.toList_inj, toList_unlines, Text.split, List.flatMap_map, String.toList_append]
  simp only [String.toList_ofList]
  rw [Text.flatMap_concat_eq (Text.splitChars_ne_nil _ _), Text.intercalate_splitChars]
  rfl

theorem block_eq (fragment : Option String) (text : String) : block fragment text = unlines (blockLines fragment text) := by
  rw [blockLines, ← List.singleton_append, List.append_assoc, unlines_append, unlines_append, unlines_split,
    unlines_singleton, unlines_singleton]
  unfold block opening
  cases fragment <;> simp [fence, fenceLength, String.append_assoc]

/-! ### Lines that go on with a section -/

/-- A line that is neither a section mark nor a fence. -/
structure Ordinary (line : String) : Prop where
  mark : Text.trimEnd line ≠ sectionMark
  fence : fenceLine? line = none

instance (line : String) : Decidable (Ordinary line) :=
  decidable_of_iff (Text.trimEnd line ≠ sectionMark ∧ (fenceLine? line).isNone = true)
    ⟨fun h => ⟨h.1, Option.isNone_iff_eq_none.mp h.2⟩, fun h => ⟨h.mark, Option.isNone_iff_eq_none.mpr h.fence⟩⟩

/-- Lines that end no section and leave no fence open. -/
def Whole (ls : List String) : Prop :=
  ∀ current rest, sections none current (ls ++ rest) = sections none (ls.reverse ++ current) rest

theorem Whole.nil : Whole [] := fun _ _ => rfl

theorem Whole.append (h : Whole ls) (h' : Whole ls') : Whole (ls ++ ls') := fun current rest => by
  rw [List.append_assoc, h, h', List.reverse_append, List.append_assoc]

theorem sections_cons_of_ne (h : Text.trimEnd line ≠ sectionMark) (current rest : List String) :
    sections none current (line :: rest) = sections (fenceLine? line) (line :: current) rest := by
  have hmark : (Text.trimEnd line == sectionMark) = false := beq_false_of_ne h
  rw [sections, hmark, Bool.and_false]
  rfl

theorem Whole.ordinary (h : ∀ l ∈ ls, Ordinary l) : Whole ls := by
  induction ls with
  | nil => exact .nil
  | cons l rest ih =>
    obtain ⟨hl, hrest⟩ := List.forall_mem_cons.mp h
    have hone : Whole [l] := fun current more => by
      rw [List.singleton_append, sections_cons_of_ne hl.mark, hl.fence]
      rfl
    exact hone.append (ih hrest)

/-- Inside a fence, lines that do not close it go on with the section. -/
theorem sections_fenced {o : FenceLine} (h : ∀ l ∈ ls, fenceAfter (some o) l = some o) (current rest : List String) :
    sections (some o) current (ls ++ rest) = sections (some o) (ls.reverse ++ current) rest := by
  induction ls generalizing current with
  | nil => rfl
  | cons l more ih =>
    obtain ⟨hl, hmore⟩ := List.forall_mem_cons.mp h
    show sections (some o) current (l :: (more ++ rest)) = _
    rw [sections, Option.isNone_some, Bool.false_and, if_neg Bool.false_ne_true, hl, ih hmore, List.reverse_cons,
      List.append_assoc]
    rfl

/-! ### Blocks go on with a section -/

theorem takeWhile_marks {c : Char} (n : Nat) {rest : List Char} (h : ∀ d ∈ rest.head?, d ≠ c) :
    (List.replicate n c ++ rest).takeWhile (· == c) = List.replicate n c := by
  have hrest : rest.takeWhile (· == c) = [] := by
    cases rest with
    | nil => rfl
    | cons d more => exact List.takeWhile_cons_of_neg (by simpa using h d rfl)
  rw [List.takeWhile_append_of_pos (fun d hd => by simp [List.eq_of_mem_replicate hd]), hrest, List.append_nil]

/-- What is read of a line with some spaces at its front. -/
theorem fenceLine?_eq {k : Nat} {c : Char} {rest : List Char} (hline : line.toList = List.replicate k ' ' ++ c :: rest)
    (hc : c ≠ ' ') : fenceLine? line =
      if 3 < k || !(c == '\u0060' || c == '~') || ((c :: rest).takeWhile (· == c)).length < 3 then none
      else some ⟨c, ((c :: rest).takeWhile (· == c)).length,
        ((c :: rest).drop ((c :: rest).takeWhile (· == c)).length).all Text.isBlank⟩ := by
  have hindent : line.toList.takeWhile (· == ' ') = List.replicate k ' ' := by
    rw [hline]
    exact takeWhile_marks k fun d hd => by cases hd; exact hc
  unfold fenceLine?
  simp only [hindent, List.length_replicate]
  rw [hline, List.drop_left' List.length_replicate]

/-- A line of backticks, with something else behind them. -/
theorem fenceLine?_marks {n : Nat} (hn : 3 ≤ n) {rest : List Char} (h : ∀ d ∈ rest.head?, d ≠ '\u0060')
    (hline : line.toList = List.replicate n '\u0060' ++ rest) :
    fenceLine? line = some ⟨'\u0060', n, rest.all Text.isBlank⟩ := by
  obtain ⟨m, rfl⟩ : ∃ m, n = m + 1 := ⟨n - 1, by omega⟩
  have hmarks : (('\u0060' :: (List.replicate m '\u0060' ++ rest)).takeWhile (· == '\u0060')).length = m + 1 := by
    have := congrArg List.length (takeWhile_marks (m + 1) h)
    rwa [List.length_replicate] at this
  have hdrop : (List.replicate (m + 1) '\u0060' ++ rest).drop (m + 1) = rest := List.drop_left' List.length_replicate
  have hcons : line.toList = List.replicate 0 ' ' ++ '\u0060' :: (List.replicate m '\u0060' ++ rest) := hline
  rw [List.replicate_succ, List.cons_append] at hdrop
  rw [fenceLine?_eq hcons (by decide), hmarks, hdrop, if_neg]
  simp
  omega

theorem takeWhile_eq_replicate (c : Char) (cs : List Char) :
    cs.takeWhile (· == c) = List.replicate (cs.takeWhile (· == c)).length c :=
  List.eq_replicate_of_mem fun d hd => by simpa using List.all_eq_true.mp List.all_takeWhile d hd

/-- The marks of a fence stand in its line. -/
theorem isInfix_of_fenceLine? {f : FenceLine} (h : fenceLine? line = some f) :
    List.replicate f.length f.mark <:+: line.toList := by
  unfold fenceLine? at h
  dsimp only at h
  split at h
  · rename_i c rest hdrop
    split at h
    · cases h
    · cases h
      dsimp only
      rw [← takeWhile_eq_replicate]
      exact (List.takeWhile_prefix _).isInfix.trans (hdrop ▸ List.drop_suffix _ _).isInfix
  · cases h

/-- A line of a text does not close the fence around it. -/
theorem fenceAfter_of_mem (h : line ∈ Text.split '\n' text) :
    fenceAfter (some ⟨'\u0060', fenceLength text, false⟩) line = some ⟨'\u0060', fenceLength text, false⟩ := by
  unfold fenceAfter
  cases hfence : fenceLine? line with
  | none => rfl
  | some f =>
    refine if_neg fun ⟨hmark, hlength, _⟩ => ?_
    obtain ⟨piece, hpiece, rfl⟩ := List.mem_map.mp h
    have hwithin := isInfix_of_fenceLine? hfence
    rw [String.toList_ofList, hmark] at hwithin
    have hle := le_longestRun_of_isInfix (hwithin.trans ((Text.isInfix_of_splitWhere _ _).2 piece hpiece)) 0 0
    have hmax := Nat.le_max_left (longestRun 0 0 text.toList) 2
    have : longestRun 0 0 text.toList < fenceLength text := Nat.lt_succ_of_le hmax
    exact absurd (Nat.lt_of_le_of_lt (Nat.le_trans hlength hle) this) (Nat.lt_irrefl _)

theorem fenceLength_ge (text : String) : 3 ≤ fenceLength text := Nat.succ_le_succ (Nat.le_max_right ..)

/-- What stands behind the fence in the line that opens a block. -/
def behind (fragment : Option String) : List Char := sourceLanguage.toList ++ (fragment.map fun f => ' ' :: f.toList).getD []

theorem toList_opening (fragment : Option String) (text : String) :
    (opening fragment text).toList = List.replicate (fenceLength text) '\u0060' ++ behind fragment := by
  unfold opening fence behind
  rw [String.toList_append, String.toList_append, String.toList_ofList, List.append_assoc]
  cases fragment with
  | none => rfl
  | some f =>
    rw [Option.map_some, Option.map_some, Option.getD_some, Option.getD_some, String.toList_append]
    rfl

theorem fenceLine?_opening (fragment : Option String) (text : String) :
    fenceLine? (opening fragment text) = some ⟨'\u0060', fenceLength text, false⟩ := by
  rw [fenceLine?_marks (fenceLength_ge text) (fun d hd => by cases hd; decide) (toList_opening fragment text)]
  rfl

theorem fenceAfter_fence (text : String) :
    fenceAfter (some ⟨'\u0060', fenceLength text, false⟩) (fence text) = none := by
  have hline : (fence text).toList = List.replicate (fenceLength text) '\u0060' ++ [] := by
    rw [fence, String.toList_ofList, List.append_nil]
  have hfence : fenceLine? (fence text) = some ⟨'\u0060', fenceLength text, true⟩ :=
    fenceLine?_marks (fenceLength_ge text) (fun _ h => by cases h) hline
  unfold fenceAfter
  rw [hfence]
  exact if_pos ⟨rfl, Nat.le_refl _, rfl⟩

/-- A section mark begins with a dash. -/
theorem head?_of_mark (h : Text.trimEnd line = sectionMark) : line.toList.head? = some '-' := by
  have hfront : Text.dropBlanksAtEnd line.toList <+: line.toList := by
    rw [← List.reverse_suffix, Text.dropBlanksAtEnd, List.reverse_reverse]
    exact List.dropWhile_suffix _
  have hmark : Text.dropBlanksAtEnd line.toList = ['-', '-', '-'] := by
    have := congrArg String.toList h
    rwa [Text.trimEnd, String.toList_ofList] at this
  rw [hmark] at hfront
  obtain ⟨rest, hrest⟩ := hfront
  rw [← hrest]
  rfl

/-- A block does not end the section that it stands in, whatever its text is. -/
theorem Whole.block (fragment : Option String) (text : String) : Whole (blockLines fragment text) := by
  intro current rest
  have hmark : Text.trimEnd (opening fragment text) ≠ sectionMark := fun h => by
    have := head?_of_mark h
    rw [toList_opening, fenceLength, List.replicate_succ] at this
    cases this
  have hclose : ∀ current, sections (some ⟨'\u0060', fenceLength text, false⟩) current (fence text :: rest) =
      sections none (fence text :: current) rest := fun current => by
    rw [sections, Option.isNone_some, Bool.false_and, if_neg Bool.false_ne_true, fenceAfter_fence]
  show sections none current (opening fragment text :: ((Text.split '\n' text ++ [fence text]) ++ rest)) = _
  rw [sections_cons_of_ne hmark, fenceLine?_opening, List.append_assoc, sections_fenced fun l hl => fenceAfter_of_mem hl,
    List.singleton_append, hclose]
  simp [blockLines]

/-! ### Sections between marks -/

theorem Whole.then_mark (h : Whole ls) (rest : List String) :
    sections none [] (ls ++ sectionMark :: rest) = ls :: sections none [] rest := by
  have hmark : (Text.trimEnd sectionMark == sectionMark) = true := by decide
  rw [h, sections, hmark, List.append_nil, List.reverse_reverse]
  rfl

/-- Sections with marks between them are found again. -/
theorem sections_join {parts : List (List String)} (hne : parts ≠ []) (h : ∀ ls ∈ parts, Whole ls) :
    sections none [] ([sectionMark].intercalate parts) = parts := by
  induction parts with
  | nil => exact absurd rfl hne
  | cons first rest ih =>
    obtain ⟨hfirst, hrest⟩ := List.forall_mem_cons.mp h
    cases rest with
    | nil =>
      have := hfirst [] []
      rw [List.append_nil, List.append_nil] at this
      rw [List.intercalate_singleton, this, sections, List.reverse_reverse]
    | cons second more =>
      rw [List.intercalate_cons_cons, List.append_assoc, List.singleton_append, hfirst.then_mark,
        ih (List.cons_ne_nil _ _) hrest]

theorem unlines_intercalate (mark : String) (parts : List (List String)) :
    unlines ([mark].intercalate parts) = String.intercalate (mark ++ "\n") (parts.map unlines) := by
  induction parts with
  | nil => rfl
  | cons first rest ih =>
    cases rest with
    | nil => rw [List.intercalate_singleton, List.map_singleton, String.intercalate_singleton]
    | cons second more =>
      rw [List.intercalate_cons_cons, unlines_append, unlines_append, unlines_singleton, ih, List.map_cons,
        List.map_cons, List.map_cons, String.intercalate_cons_cons]

/-! ### Documents -/

/-- The lines of the blocks of a source. -/
def sourceLines : BitSource → List String
  | .single text => blockLines none text
  | .fragments parts => parts.flatMap fun e => blockLines (some e.1) e.2

/-- A source whose lines are read as they were written. -/
def SourcePlain : BitSource → Prop
  | .single text => '\r' ∉ text.toList
  | .fragments parts => ∀ e ∈ parts, Text.IsLine e.1.toList ∧ '\r' ∉ e.2.toList

instance : (source : BitSource) → Decidable (SourcePlain source)
  | .single text => inferInstanceAs (Decidable ('\r' ∉ text.toList))
  | .fragments parts => inferInstanceAs (Decidable (∀ e ∈ parts, Text.IsLine e.1.toList ∧ '\r' ∉ e.2.toList))

/-- The header of a bit, as it is written. -/
def headerText (b : BitDecl) : String :=
  let header := Table.without b.encode.entries "src"
  if header.isEmpty then "" else Yaml.write (.map header)

/-- The header of a registry, as it is written. -/
def rootText (d : RegistryDocument) : String := Yaml.write (.map (Table.without d.encode.entries "bits"))

/-- The lines of a bit. -/
def bitLines (b : BitDecl) : List String := Text.lines (headerText b) ++ sourceLines b.src

/-- A header whose lines are read as they were written, none of them as a mark or a fence. -/
structure HeaderPlain (text : String) : Prop where
  bare : '\r' ∉ text.toList
  ordinary : ∀ l ∈ Text.lines text, Ordinary l

instance (text : String) : Decidable (HeaderPlain text) :=
  decidable_of_iff ('\r' ∉ text.toList ∧ ∀ l ∈ Text.lines text, Ordinary l)
    ⟨fun h => ⟨h.1, h.2⟩, fun h => ⟨h.bare, h.ordinary⟩⟩

/-- A text that does not end with a line separator or a paragraph separator. -/
def Closed (text : String) : Prop := text.toList.getLast? ∉ [some '\u2028', some '\u2029']

instance (text : String) : Decidable (Closed text) :=
  inferInstanceAs (Decidable (text.toList.getLast? ∉ [some '\u2028', some '\u2029']))

theorem headerText_ended (b : BitDecl) : headerText b = "" ∨ Yaml.Ended (headerText b).toList := by
  unfold headerText
  dsimp only
  split
  · exact .inl rfl
  · exact .inr (Yaml.write_map_ended _)

/-- The break at the end of a header is a line feed. -/
theorem Closed.ended (hclosed : Closed text) (hended : Yaml.Ended text.toList) : ∃ before, text = before ++ "\n" := by
  obtain ⟨front, c, htext, hbreak, hprintable⟩ := hended
  have hother : some c ∉ [some '\u2028', some '\u2029'] := by
    unfold Closed at hclosed
    rwa [htext, List.getLast?_concat] at hclosed
  have hfeed : c = '\n' := by
    simp only [Yaml.isBreak, Bool.or_eq_true, beq_iff_eq] at hbreak
    rcases hbreak with (((rfl | rfl) | rfl) | rfl) | rfl
    · rfl
    · exact absurd hprintable (by decide)
    · exact absurd hprintable (by decide)
    · exact absurd List.mem_cons_self hother
    · exact absurd (List.mem_cons_of_mem _ List.mem_cons_self) hother
  refine ⟨String.ofList front, ?_⟩
  rw [← String.toList_inj, htext, hfeed, String.toList_append, String.toList_ofList]
  rfl

theorem HeaderPlain.lines (h : HeaderPlain text) (hended : text = "" ∨ Yaml.Ended text.toList) (hclosed : Closed text) :
    unlines (Text.lines text) = text ∧ ∀ l ∈ Text.lines text, Text.IsLine l.toList := by
  rcases hended with rfl | hended
  · exact ⟨rfl, fun l hl => by cases hl⟩
  · obtain ⟨before, rfl⟩ := hclosed.ended hended
    have hbare : '\r' ∉ before.toList := fun hc => h.bare (by rw [String.toList_append]; exact List.mem_append_left _ hc)
    have hlines : Text.lines (before ++ "\n") = Text.split '\n' before := by
      unfold Text.lines Text.split
      rw [String.toList_append]
      exact congrArg (List.map String.ofList) (Text.lineChars_concat hbare)
    rw [hlines]
    refine ⟨unlines_split before, fun l hl => ?_⟩
    obtain ⟨piece, hpiece, rfl⟩ := List.mem_map.mp hl
    rw [String.toList_ofList]
    exact Text.isLine_of_mem_splitChars hbare hpiece

theorem lines_unlines (h : ∀ l ∈ ls, Text.IsLine l.toList) : Text.lines (unlines ls) = ls := by
  have hread : Text.lineChars ((ls.map String.toList).flatMap fun l => l ++ ['\n']) = ls.map String.toList :=
    Text.lineChars_flatMap (by simpa using h)
  rw [List.flatMap_map] at hread
  unfold Text.lines
  rw [toList_unlines, hread, List.map_map]
  simp [Function.comp_def]

theorem not_mem_fence {c : Char} (hc : c ≠ '\u0060') (text : String) : c ∉ (fence text).toList := fun h => by
  rw [fence, String.toList_ofList] at h
  exact hc (List.eq_of_mem_replicate h)

theorem isLine_opening (hname : ∀ f ∈ fragment, Text.IsLine f.toList) (text : String) :
    Text.IsLine (opening fragment text).toList := by
  have hfence : '\n' ∉ (fence text).toList := not_mem_fence (by decide) text
  unfold opening
  rw [String.toList_append, String.toList_append]
  cases fragment with
  | none =>
    refine ⟨fun h => ?_, ?_⟩
    · rcases List.mem_append.mp h with h | h
      · exact (List.mem_append.mp h).elim hfence (by decide)
      · cases h
    · simp [sourceLanguage]
  | some f =>
    obtain ⟨hwhole, hbare⟩ := hname f rfl
    have hname : (((some f).map fun f => " " ++ f).getD "").toList = ' ' :: f.toList := String.toList_append
    rw [hname]
    refine ⟨fun h => ?_, ?_⟩
    · rcases List.mem_append.mp h with h | h
      · exact (List.mem_append.mp h).elim hfence (by decide)
      · exact (List.mem_cons.mp h).elim (by decide) hwhole
    · cases hlast : f.toList.getLast? with
      | none => simp [List.getLast?_cons, hlast]
      | some c => simpa [List.getLast?_cons, hlast] using hbare

theorem isLine_blockLines (hname : ∀ f ∈ fragment, Text.IsLine f.toList) (htext : '\r' ∉ text.toList) :
    ∀ l ∈ blockLines fragment text, Text.IsLine l.toList := by
  intro l hl
  rcases List.mem_append.mp hl with hl | hl
  · rcases List.mem_cons.mp hl with rfl | hl
    · exact isLine_opening hname text
    · obtain ⟨piece, hpiece, rfl⟩ := List.mem_map.mp hl
      rw [String.toList_ofList]
      exact Text.isLine_of_mem_splitChars htext hpiece
  · rw [List.mem_singleton.mp hl]
    have hreturn : '\r' ∉ (fence text).toList := not_mem_fence (by decide) text
    exact ⟨not_mem_fence (by decide) text, fun h => hreturn (List.mem_of_getLast? h)⟩

theorem Whole.flatMap {α : Type} {f : α → List String} {xs : List α} (h : ∀ x ∈ xs, Whole (f x)) :
    Whole (xs.flatMap f) := by
  induction xs with
  | nil => exact .nil
  | cons x rest ih =>
    obtain ⟨hfirst, hrest⟩ := List.forall_mem_cons.mp h
    rw [List.flatMap_cons]
    exact hfirst.append (ih hrest)

theorem whole_sourceLines (source : BitSource) : Whole (sourceLines source) := by
  cases source with
  | single text => exact .block none text
  | fragments parts => exact .flatMap fun e _ => .block (some e.1) e.2

theorem isLine_sourceLines {source : BitSource} (h : SourcePlain source) :
    ∀ l ∈ sourceLines source, Text.IsLine l.toList := by
  cases source with
  | single text => exact isLine_blockLines (fun _ h => by cases h) h
  | fragments parts =>
    intro l hl
    obtain ⟨e, he, hl⟩ := List.mem_flatMap.mp hl
    refine isLine_blockLines (fun f hf => ?_) (h e he).2 l hl
    cases hf
    exact (h e he).1

theorem forall_mem_intercalate {q : String → Prop} {mark : String} (hmark : q mark) {parts : List (List String)}
    (h : ∀ ls ∈ parts, ∀ l ∈ ls, q l) : ∀ l ∈ [mark].intercalate parts, q l := by
  induction parts with
  | nil => exact fun l hl => by cases hl
  | cons first rest ih =>
    obtain ⟨hfirst, hrest⟩ := List.forall_mem_cons.mp h
    cases rest with
    | nil => rwa [List.intercalate_singleton]
    | cons second more =>
      rw [List.intercalate_cons_cons, List.append_assoc]
      exact List.forall_mem_append.mpr ⟨hfirst, List.forall_mem_cons.mpr ⟨hmark, ih hrest⟩⟩

theorem bitText_eq (b : BitDecl) : bitText b = headerText b ++ unlines (sourceLines b.src) := by
  unfold bitText headerText
  dsimp only
  congr 1
  cases b.src with
  | single text => exact block_eq none text
  | fragments parts =>
    show String.join (parts.map fun e => block (some e.1) e.2) =
      unlines (parts.flatMap fun e => blockLines (some e.1) e.2)
    induction parts with
    | nil => rfl
    | cons e rest ih => rw [List.map_cons, String.join_cons, List.flatMap_cons, unlines_append, ← ih, block_eq]

/-- A registry whose headers and sources are read as they were written. -/
structure DocumentPlain (d : RegistryDocument) : Prop where
  root : HeaderPlain (rootText d)
  headers : ∀ b ∈ d.bits, HeaderPlain (headerText b)
  sources : ∀ b ∈ d.bits, SourcePlain b.src

/-- A registry whose headers end with line feeds. -/
structure DocumentClosed (d : RegistryDocument) : Prop where
  root : Closed (rootText d)
  headers : ∀ b ∈ d.bits, Closed (headerText b)

/-- The sections of the bits; behind a header without bits stands an empty one. -/
def bitSections (d : RegistryDocument) : List (List String) := if d.bits.isEmpty then [[]] else d.bits.map bitLines

section Written

variable {d : RegistryDocument} (h : DocumentPlain d) (hclosed : DocumentClosed d)

include h hclosed

theorem root_lines :
    unlines (Text.lines (rootText d)) = rootText d ∧ ∀ l ∈ Text.lines (rootText d), Text.IsLine l.toList :=
  h.root.lines (.inr (Yaml.write_map_ended _)) hclosed.root

theorem header_lines {b : BitDecl} (hb : b ∈ d.bits) :
    unlines (Text.lines (headerText b)) = headerText b ∧ ∀ l ∈ Text.lines (headerText b), Text.IsLine l.toList :=
  (h.headers b hb).lines (headerText_ended b) (hclosed.headers b hb)

theorem unlines_bitSections : (bitSections d).map unlines = if d.bits.isEmpty then [""] else d.bits.map bitText := by
  unfold bitSections
  split
  · rfl
  · rw [List.map_map]
    refine List.map_congr_left fun b hb => ?_
    rw [Function.comp_apply, bitLines, unlines_append, (header_lines h hclosed hb).1, bitText_eq]

theorem write_eq_unlines :
    write d = unlines ([sectionMark].intercalate ([] :: Text.lines (rootText d) :: bitSections d)) := by
  have hbits : String.intercalate (sectionMark ++ "\n") (if d.bits.isEmpty then [""] else d.bits.map bitText) =
      String.intercalate (sectionMark ++ "\n") (d.bits.map bitText) := by
    split
    · rename_i hnone
      rw [List.isEmpty_iff.mp hnone]
      rfl
    · rfl
  have hsome : (bitSections d).map unlines ≠ [] := by
    unfold bitSections
    split
    · exact List.cons_ne_nil _ _
    · rename_i hmany
      simpa using hmany
  rw [unlines_intercalate, List.map_cons, List.map_cons, (root_lines h hclosed).1]
  rw [String.intercalate_cons_of_ne_nil (List.cons_ne_nil _ _), String.intercalate_cons_of_ne_nil hsome,
    unlines_bitSections h hclosed, hbits]
  simp [write, unlines, rootText, String.append_assoc]

theorem isLine_sections :
    ∀ l ∈ [sectionMark].intercalate ([] :: Text.lines (rootText d) :: bitSections d), Text.IsLine l.toList := by
  have hbits : ∀ ls ∈ bitSections d, ∀ l ∈ ls, Text.IsLine l.toList := by
    unfold bitSections
    split
    · exact List.forall_mem_singleton.mpr nofun
    · refine List.forall_mem_map.mpr fun b hb => ?_
      exact List.forall_mem_append.mpr ⟨(header_lines h hclosed hb).2, isLine_sourceLines (h.sources b hb)⟩
  exact forall_mem_intercalate ⟨by decide, by decide⟩
    (List.forall_mem_cons.mpr ⟨nofun, List.forall_mem_cons.mpr ⟨(root_lines h hclosed).2, hbits⟩⟩)

omit hclosed in
theorem whole_sections : ∀ ls ∈ [] :: Text.lines (rootText d) :: bitSections d, Whole ls := by
  have hbits : ∀ ls ∈ bitSections d, Whole ls := by
    unfold bitSections
    split
    · exact List.forall_mem_singleton.mpr .nil
    · refine List.forall_mem_map.mpr fun b hb => ?_
      exact (Whole.ordinary (h.headers b hb).ordinary).append (whole_sourceLines b.src)
  exact List.forall_mem_cons.mpr ⟨.nil, List.forall_mem_cons.mpr ⟨.ordinary h.root.ordinary, hbits⟩⟩

/-- A registry is read with the lines that it was written with. -/
theorem sections_write :
    sections none [] (Text.lines (write d)) = [] :: Text.lines (rootText d) :: bitSections d := by
  rw [write_eq_unlines h hclosed, lines_unlines (isLine_sections h hclosed)]
  exact sections_join (List.cons_ne_nil _ _) (whole_sections h)

end Written

/-- The sections of a text, each with the breaks of its lines. -/
def sectionTexts (text : String) : List String := (sections none [] (Text.lines text)).map unlines

/-- A registry is read with the sections that it was written with, whatever its sources are: nothing before the first
mark, its header, and for each bit the header and the blocks. Behind the header of a registry without bits stands an
empty section. -/
theorem sectionTexts_write (d : RegistryDocument) (h : DocumentPlain d) (hclosed : DocumentClosed d) :
    sectionTexts (write d) = "" :: rootText d :: if d.bits.isEmpty then [""] else d.bits.map bitText := by
  unfold sectionTexts
  rw [sections_write h hclosed, List.map_cons, List.map_cons, (root_lines h hclosed).1, unlines_bitSections h hclosed]
  rfl

/-- Bits whose sources have marks and fences in them. -/
def marked : RegistryDocument where
  tags := ["x"]
  bits := [{ tags := ["y"], src := .single "---\n````\n~~~\n" }, { src := .fragments [("head", ""), ("body", "---")] }]

theorem sectionTexts_write_marked : DocumentPlain marked ∧ DocumentClosed marked ∧ sectionTexts (write marked) =
    ["", "tags:\n- x\n", "tags:\n- y\n`````latex\n---\n````\n~~~\n\n`````\n",
      "```latex head\n\n```\n```latex body\n---\n```\n"] := by
  have hroot : rootText marked = "tags:\n- x\n" := by decide
  have hheaders : marked.bits.map headerText = ["tags:\n- y\n", ""] := by decide
  have hplain : DocumentPlain marked :=
    ⟨by rw [hroot]; decide, List.forall_mem_map.mp (by rw [hheaders]; decide), by decide⟩
  have hclosed : DocumentClosed marked := ⟨by rw [hroot]; decide, List.forall_mem_map.mp (by rw [hheaders]; decide)⟩
  refine ⟨hplain, hclosed, ?_⟩
  rw [sectionTexts_write marked hplain hclosed]
  decide +kernel

/-- A header that ends with a line separator. -/
def unclosed : RegistryDocument where
  tags := ["a\nb\u2028"]
  bits := [{ src := .single "x" }]

/-- Behind a header without bits stands a section of no bit, and a mark behind a line separator is read as part of the
header. -/
theorem sectionTexts_write_unclosed :
    (DocumentPlain {} ∧ sectionTexts (write {}) ≠ "" :: rootText {} :: ({} : RegistryDocument).bits.map bitText) ∧
      DocumentPlain unclosed ∧ sectionTexts (write unclosed) ≠ "" :: rootText unclosed :: unclosed.bits.map bitText := by
  have hnone : rootText {} = "\x7b\x7d\n" := by decide
  have hempty : DocumentPlain {} := ⟨by rw [hnone]; decide, nofun, nofun⟩
  have hroot : rootText unclosed = "tags:\n- |\n  a\n  b\u2028" := by decide
  have hheaders : unclosed.bits.map headerText = [""] := by decide
  have hplain : DocumentPlain unclosed :=
    ⟨by rw [hroot]; decide, List.forall_mem_map.mp (by rw [hheaders]; decide), by decide⟩
  have hread : sectionTexts (write unclosed) = ["", "tags:\n- |\n  a\n  b\u2028---\n```latex\nx\n```\n"] := by
    decide +kernel
  refine ⟨⟨hempty, by rw [hnone]; decide⟩, hplain, ?_⟩
  rw [hread, hroot]
  decide

end Bitpress.Document.Markdown
