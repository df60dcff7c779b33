import Bitpress.Override.Path
import Bitpress.Proofs.Lines
import Bitpress.Proofs.Outcome

/-!
How paths are written.

A path is a text of parts with points between them. A part is a key with places in
brackets behind it, and a place is a number from one on in decimal digits, with a
plus sign before them if one likes and white space around them (`Spells`). A text
is read as a path if and only if it spells one, and what is read of it is what it
spells; and what is printed of the segments spells them again (`parse_grammar`).
-/

namespace Bitpress.OverridePath

open Outcome

variable {cs digits written : List Char} {n : Nat}

/-! ### Places -/

/-- What may stand between brackets for the place `n`. -/
structure SpellsIndex (written : List Char) (n : Nat) : Prop where
  decimal : ∃ sign digits, Text.trimChars written = sign ++ digits ∧ (sign = [] ∨ sign = ['+']) ∧
    digits ≠ [] ∧ (∀ c ∈ digits, c.isDigit) ∧ Nat.ofDigitChars 10 digits 0 = n
  positive : 1 ≤ n
  inRange : n ≤ greatestIndex

theorem digits?_eq_some_iff :
    digits? cs = some n ↔ cs ≠ [] ∧ (∀ c ∈ cs, c.isDigit) ∧ Nat.ofDigitChars 10 cs 0 = n := by
  have hvalue : cs.foldl (fun n c => n * 10 + (c.toNat - '0'.toNat)) 0 = Nat.ofDigitChars 10 cs 0 := by
    simp only [Nat.mul_comm _ 10]
    rfl
  have hrefused : (cs = [] ∨ (cs.any fun c => !c.isDigit) = true) ↔ ¬ (cs ≠ [] ∧ ∀ c ∈ cs, c.isDigit) := by
    simp [imp_iff_not_or]
  unfold digits?
  rw [hvalue]
  by_cases h : cs ≠ [] ∧ ∀ c ∈ cs, c.isDigit
  · rw [if_neg (mt hrefused.mp (not_not_intro h)), Option.some_inj]
    exact ⟨fun hn => ⟨h.1, h.2, hn⟩, fun hn => hn.2.2⟩
  · rw [if_pos (hrefused.mpr h)]
    exact ⟨nofun, fun hn => absurd ⟨hn.1, hn.2.1⟩ h⟩

/-- What is left of a number without its plus sign. -/
def unsigned : List Char → List Char
  | '+' :: ds => ds
  | ds => ds

/-- A plus sign is not among the digits. -/
theorem unsigned_eq_iff (hdigits : ∀ c ∈ digits, c.isDigit) :
    unsigned cs = digits ↔ ∃ sign, cs = sign ++ digits ∧ (sign = [] ∨ sign = ['+']) := by
  constructor
  · rintro rfl
    unfold unsigned
    split
    · exact ⟨['+'], rfl, .inr rfl⟩
    · exact ⟨[], rfl, .inl rfl⟩
  · rintro ⟨sign, rfl, rfl | rfl⟩
    · rw [List.nil_append]
      unfold unsigned
      split
      · exact absurd (hdigits '+' (List.mem_cons_self ..)) (by decide)
      · rfl
    · rfl

theorem index?_eq_some_iff :
    index? cs = some n ↔ digits? (unsigned (Text.trimChars cs)) = some n ∧ n ≤ greatestIndex := by
  have hread : index? cs = (digits? (unsigned (Text.trimChars cs))).filter (· ≤ greatestIndex) := by
    unfold index?
    dsimp only
    split
    · rename_i m hm
      have hdigits : digits? (unsigned (Text.trimChars cs)) = some m := hm
      rw [hdigits]
      simp [Option.filter]
    · rename_i hnone
      have hdigits : digits? (unsigned (Text.trimChars cs)) = none := hnone
      rw [hdigits]
      rfl
  rw [hread, Option.filter_eq_some_iff, decide_eq_true_iff]

theorem spellsIndex_iff : SpellsIndex written n ↔ index? written = some n ∧ n ≠ 0 := by
  rw [index?_eq_some_iff, digits?_eq_some_iff]
  constructor
  · rintro ⟨⟨sign, digits, htrim, hsign, hne, hdigits, hn⟩, hpos, hle⟩
    rw [(unsigned_eq_iff hdigits).mpr ⟨sign, htrim, hsign⟩]
    exact ⟨⟨⟨hne, hdigits, hn⟩, hle⟩, by omega⟩
  · rintro ⟨⟨⟨hne, hdigits, hn⟩, hle⟩, hpos⟩
    obtain ⟨sign, htrim, hsign⟩ := (unsigned_eq_iff hdigits).mp rfl
    exact ⟨⟨sign, _, htrim, hsign, hne, hdigits, hn⟩, by omega, hle⟩

theorem isBlank_of_mem_takeWhile {c : Char} (h : c ∈ cs.takeWhile Text.isBlank) : Text.isBlank c :=
  List.all_eq_true.mp List.all_takeWhile c h

/-- Around what is left of a text by trimming there is only white space. -/
theorem mem_trimChars_or_isBlank {c : Char} (h : c ∈ written) : c ∈ Text.trimChars written ∨ Text.isBlank c := by
  have hends : ∀ cs : List Char, c ∈ cs → c ∈ cs.dropWhile Text.isBlank ∨ Text.isBlank c := fun cs hc => by
    rw [← List.takeWhile_append_dropWhile (p := Text.isBlank) (l := cs), List.mem_append] at hc
    exact hc.symm.imp_right isBlank_of_mem_takeWhile
  rcases hends written h with h | h
  · rcases hends _ (List.mem_reverse.mpr h) with h | h
    · exact .inl (List.mem_reverse.mpr h)
    · exact .inr h
  · exact .inr h

/-- Between the brackets of a place stand white space, digits and a plus sign. -/
theorem SpellsIndex.not_mem (h : SpellsIndex written n) {c : Char} (hblank : Text.isBlank c = false)
    (hdigit : c.isDigit = false) (hplus : c ≠ '+') : c ∉ written := by
  intro hc
  obtain ⟨sign, digits, htrim, hsign, -, hdigits, -⟩ := h.decimal
  rcases mem_trimChars_or_isBlank hc with hc | hc
  · rw [htrim] at hc
    rcases List.mem_append.mp hc with hc | hc
    · rcases hsign with rfl | rfl
      · cases hc
      · exact hplus (List.mem_singleton.mp hc)
    · exact absurd (hdigits c hc) (by simp [hdigit])
  · exact absurd hc (by simp [hblank])

/-- A place in its brackets. -/
def bracketed (written : List Char) : List Char := '[' :: written ++ [']']

theorem places_bracketed (h : SpellsIndex written n) (rest : List Char) :
    places (bracketed written ++ rest) = (places rest).map (.index n :: ·) := by
  have hcut : Text.cutAt? [']'] (written ++ ([']'] ++ rest)) = some (written, rest) :=
    Text.cutAt?_append (h.not_mem (by decide) (by decide) (by decide)) rest
  have htext : bracketed written ++ rest = '[' :: (written ++ ([']'] ++ rest)) := by simp [bracketed]
  obtain ⟨hread, hn⟩ := spellsIndex_iff.mp h
  rw [htext, places]
  split
  · rename_i hnone
    rw [hcut] at hnone
    cases hnone
  · rename_i written' rest' hsome
    rw [hcut] at hsome
    cases hsome
    rw [hread]
    cases n with
    | zero => exact absurd rfl hn
    | succ n => rfl

/-- What stands after a key is read if and only if it is places in brackets. -/
theorem places_eq_ok_iff {segments : List Segment} : places cs = .ok segments ↔
    ∃ es : List (List Char × Nat), cs = (es.flatMap fun e => bracketed e.1) ∧ (∀ e ∈ es, SpellsIndex e.1 e.2) ∧
      segments = es.map fun e => .index e.2 := by
  constructor
  · intro h
    fun_induction places cs generalizing segments with
    | case1 =>
      cases h
      exact ⟨[], rfl, nofun, rfl⟩
    | case2 => cases h
    | case3 => cases h
    | case4 => cases h
    | case5 inner written rest hcut n hn hread ih =>
      obtain ⟨more, hmore, rfl⟩ := map_eq_ok.mp h
      obtain ⟨es, rfl, hes, rfl⟩ := ih hmore
      have hwritten : SpellsIndex written n := spellsIndex_iff.mpr ⟨hread, hn⟩
      refine ⟨(written, n) :: es, ?_, List.forall_mem_cons.mpr ⟨hwritten, hes⟩, rfl⟩
      rw [Text.cutAt?_eq_some hcut]
      simp [bracketed]
    | case6 => cases h
  · rintro ⟨es, rfl, hes, rfl⟩
    induction es with
    | nil =>
      rw [List.flatMap_nil, places]
      rfl
    | cons e rest ih =>
      obtain ⟨he, hrest⟩ := List.forall_mem_cons.mp hes
      rw [List.flatMap_cons, places_bracketed he, ih hrest]
      rfl

/-! ### Parts -/

/-- A key with places behind it, each as it is written and as the number that it stands for. -/
structure Part where
  key : List Char
  places : List (List Char × Nat)

namespace Part

def text (p : Part) : List Char := p.key ++ p.places.flatMap fun e => bracketed e.1

def segments (p : Part) : List Segment := .key (String.ofList p.key) :: p.places.map fun e => .index e.2

/-- Keys are not empty, and have no brackets and no points. -/
structure Valid (p : Part) : Prop where
  key_ne : p.key ≠ []
  key_free : ∀ c ∈ p.key, c ≠ '.' ∧ c ≠ '[' ∧ c ≠ ']'
  places : ∀ e ∈ p.places, SpellsIndex e.1 e.2

end Part

/-- A text without points is read as a part if and only if it is a key with places behind it. -/
theorem part_eq_ok_iff {segments : List Segment} (hpoint : '.' ∉ cs) :
    part cs = .ok segments ↔ ∃ p : Part, cs = p.text ∧ p.Valid ∧ segments = p.segments := by
  have hsplit : cs.takeWhile (· != '[') ++ cs.dropWhile (· != '[') = cs := List.takeWhile_append_dropWhile
  constructor
  · intro h
    unfold part at h
    dsimp only at h
    split at h
    · cases h
    rename_i hne
    split at h
    · cases h
    rename_i hclose
    obtain ⟨more, hmore, rfl⟩ := map_eq_ok.mp h
    obtain ⟨es, hes, hplaces, rfl⟩ := places_eq_ok_iff.mp hmore
    refine ⟨⟨cs.takeWhile (· != '['), es⟩, ?_, ⟨hne, fun c hc => ⟨?_, ?_, ?_⟩, hplaces⟩, rfl⟩
    · rw [← hsplit]
      simp only [Part.text, ← hes, hsplit]
    · rintro rfl
      exact hpoint ((List.takeWhile_prefix _).subset hc)
    · rintro rfl
      exact absurd (List.all_eq_true.mp List.all_takeWhile _ hc) (by decide)
    · rintro rfl
      exact hclose hc
  · rintro ⟨p, rfl, hp, rfl⟩
    have hplaces : OverridePath.places (p.places.flatMap fun e => bracketed e.1) = .ok (p.places.map fun e => .index e.2) :=
      places_eq_ok_iff.mpr ⟨p.places, rfl, hp.places, rfl⟩
    have hkey : ∀ c ∈ p.key, (c != '[') = true := fun c hc => by simpa using (hp.key_free c hc).2.1
    have htake : p.text.takeWhile (· != '[') = p.key := by
      unfold Part.text
      rw [List.takeWhile_append_of_pos hkey]
      cases p.places <;> simp [bracketed]
    have hdrop : p.text.dropWhile (· != '[') = p.places.flatMap fun e => bracketed e.1 := by
      rw [htake] at hsplit
      exact List.append_cancel_left hsplit
    unfold part
    simp only [htake, hdrop]
    rw [if_neg hp.key_ne, if_neg fun h => (hp.key_free _ h).2.2 rfl, hplaces]
    rfl

theorem Part.Valid.not_mem_point {p : Part} (h : p.Valid) : '.' ∉ p.text := by
  intro hc
  rcases List.mem_append.mp hc with hc | hc
  · exact (h.key_free _ hc).1 rfl
  · obtain ⟨e, he, hc⟩ := List.mem_flatMap.mp hc
    have hwritten := (h.places e he).not_mem (c := '.') (by decide) (by decide) (by decide)
    simp [bracketed, hwritten] at hc

/-! ### Paths -/

/-- A text spells segments if it is not blank, and consists of parts with points between them that have these
segments. -/
def Spells (raw : String) (segments : List Segment) : Prop :=
  Text.blankText raw = false ∧ ∃ parts : List Part, raw.toList = ['.'].intercalate (parts.map Part.text) ∧
    (∀ p ∈ parts, p.Valid) ∧ segments = parts.flatMap Part.segments

theorem mapM_part_eq_ok_iff {pieces : List (List Char)} (hpoint : ∀ piece ∈ pieces, '.' ∉ piece)
    {groups : List (List Segment)} : pieces.mapM part = .ok groups ↔
      ∃ parts : List Part, pieces = parts.map Part.text ∧ (∀ p ∈ parts, p.Valid) ∧ groups = parts.map Part.segments := by
  induction pieces generalizing groups with
  | nil =>
    constructor
    · rintro ⟨⟩
      exact ⟨[], rfl, nofun, rfl⟩
    · rintro ⟨parts, hparts, -, rfl⟩
      rw [List.map_eq_nil_iff.mp hparts.symm]
      rfl
  | cons piece rest ih =>
    obtain ⟨hpiece, hrest⟩ := List.forall_mem_cons.mp hpoint
    rw [List.mapM_cons]
    constructor
    · intro h
      obtain ⟨segments, hsegments, h⟩ := bind_eq_ok.mp h
      obtain ⟨more, hmore, h⟩ := bind_eq_ok.mp h
      cases h
      obtain ⟨p, rfl, hp, rfl⟩ := (part_eq_ok_iff hpiece).mp hsegments
      obtain ⟨parts, rfl, hparts, rfl⟩ := (ih hrest).mp hmore
      exact ⟨p :: parts, rfl, List.forall_mem_cons.mpr ⟨hp, hparts⟩, rfl⟩
    · rintro ⟨parts, hpieces, hparts, rfl⟩
      cases parts with
      | nil => cases hpieces
      | cons p parts =>
        obtain ⟨rfl, rfl⟩ := List.cons.inj hpieces
        obtain ⟨hp, hparts⟩ := List.forall_mem_cons.mp hparts
        rw [(part_eq_ok_iff hpiece).mpr ⟨p, rfl, hp, rfl⟩, (ih hrest).mpr ⟨parts, rfl, hparts, rfl⟩]
        rfl

/-- A text is cut into the parts that it is made of. -/
theorem splitChars_eq_iff {pieces : List (List Char)} (hne : cs ≠ []) (hpoint : ∀ piece ∈ pieces, '.' ∉ piece) :
    Text.splitChars '.' cs = pieces ↔ cs = ['.'].intercalate pieces := by
  constructor
  · rintro rfl
    exact (Text.intercalate_splitChars '.' cs).symm
  · rintro rfl
    have hfree : ∀ piece ∈ pieces, ∀ c ∈ piece, (c == '.') = false := fun piece hpiece c hc =>
      beq_false_of_ne fun he => hpoint piece hpiece (he ▸ hc)
    have hsome : pieces ≠ [] := fun h => hne (by rw [h]; rfl)
    exact Text.splitWhere_intercalate (p := (· == '.')) (beq_self_eq_true '.') hsome hfree

theorem segmentsOf_eq_ok_iff {raw : String} {segments : List Segment} :
    segmentsOf raw.toList = .ok segments ↔ Spells raw segments := by
  show (if Text.blankText raw = true then .error .empty
    else ((Text.splitChars '.' raw.toList).mapM part).map List.flatten) = Except.ok segments ↔ _
  unfold Spells
  by_cases hblank : Text.blankText raw = true
  · rw [if_pos hblank, hblank]
    exact ⟨nofun, fun h => nomatch h.1⟩
  · have hne : raw.toList ≠ [] := fun h => hblank (by rw [Text.blankText, h]; rfl)
    have hpoint : ∀ piece ∈ Text.splitChars '.' raw.toList, '.' ∉ piece := fun piece hpiece hc =>
      absurd (Text.mem_splitWhere hpiece '.' hc) (by decide)
    rw [if_neg hblank, map_eq_ok]
    constructor
    · rintro ⟨groups, hgroups, rfl⟩
      obtain ⟨parts, hparts, hvalid, rfl⟩ := (mapM_part_eq_ok_iff hpoint).mp hgroups
      refine ⟨Bool.eq_false_iff.mpr hblank, parts, ?_, hvalid, rfl⟩
      rw [← hparts, Text.intercalate_splitChars]
    · rintro ⟨-, parts, hraw, hvalid, rfl⟩
      have hparts : Text.splitChars '.' raw.toList = parts.map Part.text :=
        (splitChars_eq_iff hne (by simpa using fun p hp => (hvalid p hp).not_mem_point)).mpr hraw
      exact ⟨_, (mapM_part_eq_ok_iff hpoint).mpr ⟨parts, hparts, hvalid, rfl⟩, rfl⟩

theorem parse_eq_ok_iff {raw : String} {p : OverridePath} : parse raw = .ok p ↔ p.raw = raw ∧ Spells raw p.segments := by
  rw [← segmentsOf_eq_ok_iff]
  unfold parse
  cases segmentsOf raw.toList with
  | error reason => exact ⟨nofun, fun h => nomatch h.2⟩
  | ok segments =>
    constructor
    · rintro ⟨⟩
      exact ⟨rfl, rfl⟩
    · rintro ⟨rfl, h⟩
      cases h
      rfl

/-! ### Printing -/

theorem trimChars_eq_self (h : ∀ c ∈ cs, Text.isBlank c = false) : Text.trimChars cs = cs := by
  have hkept : ∀ ds : List Char, (∀ c ∈ ds, Text.isBlank c = false) → ds.dropWhile Text.isBlank = ds := fun ds hds => by
    cases ds with
    | nil => rfl
    | cons d rest => exact List.dropWhile_cons_of_neg (by simpa using hds d (List.mem_cons_self ..))
  unfold Text.trimChars Text.dropBlanksAtEnd Text.skipBlanks
  rw [hkept cs h, hkept cs.reverse (by simpa using h), List.reverse_reverse]

theorem isBlank_of_isDigit {c : Char} (h : c.isDigit) : Text.isBlank c = false := by
  have hrange : 48 ≤ c.toNat ∧ c.toNat ≤ 57 := by
    simp only [Char.isDigit, ge_iff_le, Bool.and_eq_true, decide_eq_true_eq, UInt32.le_iff_toNat_le] at h
    exact h
  simp only [Text.isBlank, Bool.or_eq_false_iff, Bool.and_eq_false_iff, decide_eq_false_iff_not, beq_eq_false_iff_ne]
  omega

/-- A place is spelled by its digits. -/
theorem spellsIndex_toDigits (hpos : 1 ≤ n) (hle : n ≤ greatestIndex) : SpellsIndex (Nat.toDigits 10 n) n := by
  have hdigits : ∀ c ∈ Nat.toDigits 10 n, c.isDigit := fun c hc =>
    Nat.isDigit_of_mem_toDigits (by decide) (by decide) hc
  refine ⟨⟨[], _, ?_, .inl rfl, Nat.toDigits_ne_nil, hdigits, Nat.ofDigitChars_toDigits (by decide) (by decide)⟩, hpos, hle⟩
  exact trimChars_eq_self fun c hc => isBlank_of_isDigit (hdigits c hc)

/-- A part as it is printed. -/
def Part.plain (p : Part) : Part := ⟨p.key, p.places.map fun e => (Nat.toDigits 10 e.2, e.2)⟩

theorem Part.Valid.plain {p : Part} (h : p.Valid) : p.plain.Valid :=
  ⟨h.key_ne, h.key_free, List.forall_mem_map.mpr fun e he =>
    spellsIndex_toDigits (h.places e he).positive (h.places e he).inRange⟩

theorem Part.segments_plain (p : Part) : p.plain.segments = p.segments := by
  simp [segments, plain, Function.comp_def]

theorem toList_text_index (n : Nat) : (Segment.index n).text.toList = bracketed (Nat.toDigits 10 n) := by
  simp [Segment.text, bracketed]

/-- The places behind a segment are printed in a row, and a point stands before the next part. -/
theorem toList_print_places (s : Segment) (es : List (List Char × Nat)) (parts : List Part) :
    (print (s :: es.map (fun e => .index e.2) ++ parts.flatMap Part.segments)).toList =
      s.text.toList ++ (es.flatMap fun e => bracketed (Nat.toDigits 10 e.2)) ++
        if parts = [] then [] else '.' :: (print (parts.flatMap Part.segments)).toList := by
  induction es generalizing s with
  | nil =>
    cases parts with
    | nil => simp [print]
    | cons p rest => simp [print, Part.segments]
  | cons e rest ih =>
    have hhead : (print (s :: (e :: rest).map (fun e => .index e.2) ++ parts.flatMap Part.segments)) =
        s.text ++ "" ++ print (.index e.2 :: rest.map (fun e => .index e.2) ++ parts.flatMap Part.segments) := rfl
    rw [hhead, String.toList_append, String.toList_append, ih, toList_text_index, List.flatMap_cons]
    simp [List.append_assoc]

theorem toList_print (parts : List Part) :
    (print (parts.flatMap Part.segments)).toList = ['.'].intercalate (parts.map fun p => p.plain.text) := by
  induction parts with
  | nil => rfl
  | cons p rest ih =>
    have hplain : p.plain.text = p.key ++ p.places.flatMap fun e => bracketed (Nat.toDigits 10 e.2) := by
      simp [Part.text, Part.plain, List.flatMap_map]
    have hkey : (Segment.key (String.ofList p.key)).text.toList = p.key := String.toList_ofList
    rw [List.flatMap_cons, Part.segments, toList_print_places, ih, hkey, ← hplain]
    cases rest with
    | nil => simp
    | cons q more => simp [List.intercalate_cons_cons]

/-- Blank is what has one key of white space only. -/
theorem exists_blank_key {parts : List Part}
    (h : ∀ c ∈ ['.'].intercalate (parts.map Part.text), Text.isBlank c) (hne : parts ≠ []) :
    ∃ key, parts = [⟨key, []⟩] := by
  obtain ⟨p, rest, rfl⟩ := List.exists_cons_of_ne_nil hne
  cases rest with
  | cons q more =>
    have := h '.' (by simp [List.intercalate_cons_cons])
    exact absurd this (by decide)
  | nil =>
    obtain ⟨key, es⟩ := p
    cases es with
    | nil => exact ⟨key, rfl⟩
    | cons e es =>
      have := h '[' (by simp [Part.text, bracketed])
      exact absurd this (by decide)

/-- What is printed of segments spells them. -/
theorem Spells.print {raw : String} {segments : List Segment} (h : Spells raw segments) :
    Spells (OverridePath.print segments) segments := by
  obtain ⟨hblank, parts, hraw, hvalid, rfl⟩ := h
  have hplain : ∀ p ∈ parts.map Part.plain, p.Valid := List.forall_mem_map.mpr fun p hp => (hvalid p hp).plain
  have hprint : (OverridePath.print (parts.flatMap Part.segments)).toList =
      ['.'].intercalate ((parts.map Part.plain).map Part.text) := by
    rw [toList_print, List.map_map]
    rfl
  refine ⟨Bool.eq_false_iff.mpr fun hprinted => ?_, parts.map Part.plain, hprint, hplain, ?_⟩
  · have hne : parts ≠ [] := by
      rintro rfl
      rw [Text.blankText, hraw] at hblank
      cases hblank
    rw [Text.blankText, hprint, List.all_eq_true] at hprinted
    obtain ⟨key, hkey⟩ := exists_blank_key hprinted (by simpa using hne)
    obtain ⟨p, rfl, hp⟩ := List.map_eq_singleton_iff.mp hkey
    have hp' : p = ⟨key, []⟩ := by
      cases p
      simpa [Part.plain] using hp
    subst hp'
    rw [Text.blankText, hraw] at hblank
    exact Bool.false_ne_true (hblank.symm.trans (List.all_eq_true.mpr hprinted))
  · rw [List.flatMap_map]
    exact List.flatMap_congr fun p _ => p.segments_plain.symm

/-- A text is read as a path if and only if it spells one, and the segments that are read are those that it spells.
Printed, with points between the keys and places in brackets, they are read again. -/
theorem parse_grammar (raw : String) :
    (∀ p, parse raw = .ok p ↔ p.raw = raw ∧ Spells raw p.segments) ∧
      ∀ p, parse raw = .ok p → parse (print p.segments) = .ok ⟨print p.segments, p.segments⟩ := by
  refine ⟨fun p => parse_eq_ok_iff, fun p h => ?_⟩
  obtain ⟨-, hspells⟩ := parse_eq_ok_iff.mp h
  exact parse_eq_ok_iff.mpr ⟨rfl, hspells.print⟩

/-- A part with a signed place and one without places. -/
def signedParts : List Part := [⟨"grid".toList, [(" +03 ".toList, 3), ("1".toList, 1)]⟩, ⟨"a b".toList, []⟩]

/-- Signs, leading zeros and white space are not printed. -/
theorem parse_grammar_signed : ∃ p, parse "grid[ +03 ][1].a b" = .ok p ∧ print p.segments = "grid[3][1].a b" ∧
    parse "grid[3][1].a b" = .ok ⟨"grid[3][1].a b", p.segments⟩ := by
  have hplaces : ∀ p ∈ signedParts, ∀ e ∈ p.places, SpellsIndex e.1 e.2 := by
    simp only [spellsIndex_iff]
    decide
  have hkeys : ∀ p ∈ signedParts, p.key ≠ [] ∧ p.key.all fun c => decide (c ≠ '.' ∧ c ≠ '[' ∧ c ≠ ']') := by decide
  have hvalid : ∀ p ∈ signedParts, p.Valid := fun p hp =>
    ⟨(hkeys p hp).1, fun c hc => of_decide_eq_true (List.all_eq_true.mp (hkeys p hp).2 c hc), hplaces p hp⟩
  have hspells : Spells "grid[ +03 ][1].a b" (signedParts.flatMap Part.segments) :=
    ⟨by decide, signedParts, by decide, hvalid, rfl⟩
  have hparse := ((parse_grammar "grid[ +03 ][1].a b").1 ⟨_, _⟩).mpr ⟨rfl, hspells⟩
  exact ⟨_, hparse, by decide, (parse_grammar _).2 _ hparse⟩

end Bitpress.OverridePath
