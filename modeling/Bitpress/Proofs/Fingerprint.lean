import Bitpress.Proofs.Compose.Pipeline
import Bitpress.Proofs.Telling
import Mathlib.Data.List.Induction

/-!
Fingerprints tell what values hold.

Values have the same content if they are of one kind and their parts have
(`SameContent`); of a block that is the source of its bit and its variables, of a
constant its symbol and its value, and of a number its text. The fingerprint of a
value, with a comma behind it, tells its content (`telling_fingerprint`). So the
duplicates that are dropped by the hashes of fingerprints are values with the content
of one that is kept, as far as the hash tells texts apart (`fingerprint_faithful`).
-/

namespace Bitpress

/-! ### Numbers -/

/-- The characters that numbers are written with. -/
def isNumeral (c : Char) : Bool := c.isDigit || ['-', '+', '.', 'e'].contains c

/-- A text that is not empty, and has only characters of numbers. -/
structure Numeral (cs : List Char) : Prop where
  ne_nil : cs ≠ []
  chars : ∀ c ∈ cs, isNumeral c

namespace RealLayout

variable {ds : List Char}

theorem isNumeral_toDigits (n : Nat) : ∀ c ∈ Nat.toDigits 10 n, isNumeral c := fun c hc => by
  unfold isNumeral
  rw [Nat.isDigit_of_mem_toDigits (by decide) (by decide) hc]
  rfl

theorem isNumeral_zeros (n : Nat) : ∀ c ∈ zeros n, isNumeral c := fun c hc => by
  rw [List.eq_of_mem_replicate hc]
  rfl

theorem numeral_placed (h : ∀ c ∈ ds, isNumeral c) (point : Int) : Numeral (placed ds point) := by
  unfold placed
  dsimp only
  split_ifs with hpoint hlength
  · refine ⟨by simp, ?_⟩
    simp only [List.forall_mem_append]
    exact ⟨⟨List.all_eq_true.mp rfl, isNumeral_zeros _⟩, h⟩
  · refine ⟨by simp, ?_⟩
    simp only [List.forall_mem_append]
    exact ⟨⟨h, isNumeral_zeros _⟩, List.all_eq_true.mp rfl⟩
  · refine ⟨by simp, ?_⟩
    simp only [List.forall_mem_append]
    exact ⟨⟨fun c hc => h c (List.mem_of_mem_take hc), List.all_eq_true.mp rfl⟩,
      fun c hc => h c (List.mem_of_mem_drop hc)⟩

theorem numeral_powered (plusSign : Bool) (h : ∀ c ∈ ds, isNumeral c) (point : Int) :
    Numeral (powered plusSign ds point) := by
  unfold powered
  dsimp only
  refine ⟨by simp, ?_⟩
  simp only [List.forall_mem_append]
  refine ⟨⟨⟨?_, List.all_eq_true.mp rfl⟩, ?_⟩, isNumeral_toDigits _⟩
  · split
    · exact nofun
    · exact h
    · obtain ⟨hd, hmore⟩ := List.forall_mem_cons.mp h
      exact List.forall_mem_cons.mpr ⟨hd, List.forall_mem_cons.mpr ⟨rfl, hmore⟩⟩
  · split_ifs <;> exact List.all_eq_true.mp rfl

theorem numeral_textOf (layout : RealLayout) (x : Binary64) : Numeral (layout.textOf x).toList := by
  have hsign : ∀ c ∈ (if x.isNegative then ['-'] else []), isNumeral c := by
    split_ifs <;> exact List.all_eq_true.mp rfl
  unfold textOf
  dsimp only
  generalize (if x.isNegative then ['-'] else []) = sign at *
  have hsigned : ∀ {cs}, Numeral cs → Numeral (String.ofList (sign ++ cs)).toList := fun {cs} h => by
    rw [String.toList_ofList]
    exact ⟨List.append_ne_nil_of_right_ne_nil _ h.ne_nil, List.forall_mem_append.mpr ⟨hsign, h.chars⟩⟩
  split_ifs with hzero hpositional
  · exact hsigned ⟨List.cons_ne_nil _ _, List.all_eq_true.mp rfl⟩
  · exact hsigned (numeral_placed (isNumeral_toDigits _) _)
  · exact hsigned (numeral_powered _ (isNumeral_toDigits _) _)

end RealLayout

theorem Number.numeral_text (n : Number) : Numeral n.text.toList := by
  have hdigits : ∀ m : Nat, Numeral (toString m).toList := fun m => by
    rw [Nat.toString_eq_ofList_toDigits, String.toList_ofList]
    exact ⟨Nat.toDigits_ne_nil, RealLayout.isNumeral_toDigits m⟩
  cases n with
  | int n =>
    cases n with
    | ofNat m => exact hdigits m
    | negSucc m =>
      show Numeral ("-" ++ toString (m + 1)).toList
      rw [String.toList_append]
      exact ⟨List.cons_ne_nil _ _, List.forall_mem_cons.mpr ⟨rfl, (hdigits (m + 1)).chars⟩⟩
  | real x => exact RealLayout.numeral_textOf _ x

namespace ContextValue

open Text

/-! ### Content -/

mutual

/-- Values with the same content. Whose bit a block or constant is, and the metadata of a block, does not matter. -/
def SameContent : ContextValue → ContextValue → Prop
  | .null, .null => True
  | .bool a, .bool b => a = b
  | .num m, .num n => m.text = n.text
  | .str s, .str t => s = t
  | .list xs, .list ys => SameItems xs ys
  | .map xs, .map ys => SameEntries xs ys
  | .block b xs _, .block b' ys _ => b.source = b'.source ∧ SameEntries xs ys
  | .constant c, .constant c' => c.symbol = c'.symbol ∧ c.value = c'.value
  | _, _ => False

def SameItems : List ContextValue → List ContextValue → Prop
  | [], [] => True
  | v :: xs, w :: ys => SameContent v w ∧ SameItems xs ys
  | _, _ => False

def SameEntries : List (String × ContextValue) → List (String × ContextValue) → Prop
  | [], [] => True
  | (k, v) :: xs, (l, w) :: ys => (k = l ∧ SameContent v w) ∧ SameEntries xs ys
  | _, _ => False

end

theorem sameItems_of_forall₂ {xs ys : List ContextValue} (h : List.Forall₂ SameContent xs ys) : SameItems xs ys := by
  induction h with
  | nil => trivial
  | cons hfirst _ ih => exact ⟨hfirst, ih⟩

/-- The same key, and values with the same content. -/
def SameEntry (e f : String × ContextValue) : Prop := e.1 = f.1 ∧ SameContent e.2 f.2

theorem sameEntries_of_forall₂ {xs ys : List (String × ContextValue)} (h : List.Forall₂ SameEntry xs ys) :
    SameEntries xs ys := by
  induction h with
  | nil => trivial
  | cons hfirst _ ih => exact ⟨hfirst, ih⟩

mutual

theorem fingerprint_of_sameContent : (v w : ContextValue) → v.SameContent w → v.fingerprint = w.fingerprint
  | .null, .null, _ => rfl
  | .bool a, .bool b, h => by rw [show a = b from h]
  | .num m, .num n, h => h
  | .str s, .str t, h => by rw [show s = t from h]
  | .list xs, .list ys, h => by
    unfold fingerprint
    rw [fingerprintItems_of_sameItems xs ys h]
  | .map xs, .map ys, h => by
    unfold fingerprint
    rw [fingerprintEntries_of_sameEntries xs ys h]
  | .block b xs _, .block b' ys _, h => by
    unfold fingerprint
    rw [h.1, fingerprintEntries_of_sameEntries xs ys h.2]
  | .constant c, .constant c', h => by
    unfold fingerprint
    rw [h.1, h.2]

theorem fingerprintItems_of_sameItems : (xs ys : List ContextValue) → SameItems xs ys →
    fingerprintItems xs = fingerprintItems ys
  | [], [], _ => rfl
  | v :: xs, w :: ys, h => by
    unfold fingerprintItems
    rw [fingerprint_of_sameContent v w h.1, fingerprintItems_of_sameItems xs ys h.2]

theorem fingerprintEntries_of_sameEntries : (xs ys : List (String × ContextValue)) → SameEntries xs ys →
    fingerprintEntries xs = fingerprintEntries ys
  | [], [], _ => rfl
  | (k, v) :: xs, (l, w) :: ys, h => by
    unfold fingerprintEntries
    rw [h.1.1, fingerprint_of_sameContent v w h.1.2, fingerprintEntries_of_sameEntries xs ys h.2]

end

/-! ### Sources -/

theorem telling_entry (e : String × String) :
    Telling (fun e => (quoted e.1).toList ++ ([':', ' '] ++ (quoted e.2).toList)) (· = ·) e := by
  have hname : Telling (fun e : String × String => (quoted e.1).toList) (fun e f => e.1 = f.1) e :=
    fun f => telling_quoted e.1 f.1
  have htext : Telling (fun e : String × String => (quoted e.2).toList) (fun e f => e.2 = f.2) e :=
    fun f => telling_quoted e.2 f.2
  exact (hname.append (htext.behind [':', ' '])).imp fun f h => Prod.ext h.1 h.2

/-- The source of a bit is told by its text. -/
theorem telling_sourceText (source : BitSource) : Telling (fun source => (sourceText source).toList) (· = ·) source := by
  have hsingle : ∀ text, (sourceText (.single text)).toList = "Single(".toList ++ ((quoted text).toList ++ [')']) := by
    intro text
    simp [sourceText]
  have hfragments : ∀ parts, (sourceText (.fragments parts)).toList = "Fragments(\x7b".toList ++
      ([',', ' '].intercalate (parts.map fun e => (quoted e.1).toList ++ ([':', ' '] ++ (quoted e.2).toList)) ++
        ['\x7d', ')']) := by
    intro parts
    simp [sourceText, String.toList_intercalate, Function.comp_def]
  have hstop : ∀ e : String × String, ∃ c rest,
      (quoted e.1).toList ++ ([':', ' '] ++ (quoted e.2).toList) = c :: rest ∧ c ≠ '\x7d' := fun e =>
    ⟨'"', _, by rw [toList_quoted]; rfl, by decide⟩
  intro source' r s hrs
  dsimp only at hrs
  cases source with
  | single text =>
    cases source' with
    | single text' =>
      rw [hsingle, hsingle] at hrs
      exact (((telling_quoted text).before [')']).behind _ text' r s hrs).imp_left (congrArg BitSource.single)
    | fragments parts' =>
      rw [hsingle, hfragments] at hrs
      cases hrs
  | fragments parts =>
    cases source' with
    | single text' =>
      rw [hsingle, hfragments] at hrs
      cases hrs
    | fragments parts' =>
      rw [hfragments, hfragments, List.append_assoc, List.append_assoc, List.append_assoc, List.append_assoc] at hrs
      obtain ⟨hsame, hrs⟩ := Telling.intercalate (by decide) hstop (fun e _ => telling_entry e) (List.append_cancel_left hrs)
      rw [List.forall₂_eq_eq_eq] at hsame
      exact ⟨congrArg BitSource.fragments hsame, List.tail_eq_of_cons_eq hrs⟩

/-! ### Kinds -/

/-- The kinds of values. -/
inductive Kind
  | null
  | bool
  | num
  | str
  | list
  | map
  | block
  | constant
deriving DecidableEq

def kind : ContextValue → Kind
  | .null => .null
  | .bool _ => .bool
  | .num _ => .num
  | .str _ => .str
  | .list _ => .list
  | .map _ => .map
  | .block .. => .block
  | .constant _ => .constant

/-- The kind of value that a fingerprint with a character at its front stands for. -/
def Kind.ofFirst? (c : Char) : Option Kind :=
  if isNumeral c then some .num
  else if c = 'n' then some .null
  else if c = 't' ∨ c = 'f' then some .bool
  else if c = '"' then some .str
  else if c = '[' then some .list
  else if c = '\x7b' then some .map
  else if c = 'b' then some .block
  else if c = 'c' then some .constant
  else none

theorem kind_fingerprint (v : ContextValue) :
    ∃ c rest, v.fingerprint.toList = c :: rest ∧ Kind.ofFirst? c = some v.kind := by
  cases v with
  | null => exact ⟨'n', _, rfl, by decide⟩
  | bool b => cases b <;> exact ⟨_, _, rfl, by decide⟩
  | num n =>
    obtain ⟨hne, hchars⟩ := n.numeral_text
    obtain ⟨c, rest, htext⟩ := List.exists_cons_of_ne_nil hne
    refine ⟨c, rest, htext, if_pos (hchars c ?_)⟩
    rw [htext]
    exact List.mem_cons_self ..
  | str s => exact ⟨'"', _, toList_quoted s, rfl⟩
  | list items => exact ⟨'[', _, by unfold fingerprint; simp only [String.toList_append]; rfl, rfl⟩
  | map entries => exact ⟨'\x7b', _, by unfold fingerprint; simp only [String.toList_append]; rfl, rfl⟩
  | block bit context metadata => exact ⟨'b', _, by unfold fingerprint; simp only [String.toList_append]; rfl, rfl⟩
  | constant c => exact ⟨'c', _, by unfold fingerprint; simp only [String.toList_append]; rfl, rfl⟩

theorem kind_eq {v w : ContextValue} {r s : List Char}
    (h : v.fingerprint.toList ++ r = w.fingerprint.toList ++ s) : v.kind = w.kind := by
  obtain ⟨c, rest, hv, hc⟩ := kind_fingerprint v
  obtain ⟨d, rest', hw, hd⟩ := kind_fingerprint w
  rw [hv, hw] at h
  rw [← Option.some_inj, ← hc, ← hd, (List.cons.inj h).1]

/-! ### Fingerprints -/

/-- A value among others: its fingerprint, and a comma. -/
def written (v : ContextValue) : List Char := v.fingerprint.toList ++ [',']

def writtenEntry (e : String × ContextValue) : List Char := (quoted e.1).toList ++ ([':'] ++ written e.2)

theorem toList_fingerprintItems (xs : List ContextValue) : (fingerprintItems xs).toList = xs.flatMap written := by
  induction xs with
  | nil => rfl
  | cons v rest ih => simp [fingerprintItems, written, ih]

theorem toList_fingerprintEntries (xs : List (String × ContextValue)) :
    (fingerprintEntries xs).toList = xs.flatMap writtenEntry := by
  induction xs with
  | nil => rfl
  | cons e rest ih => simp [fingerprintEntries, writtenEntry, written, ih]

theorem written_num (n : Number) : written (.num n) = n.text.toList ++ [','] := rfl

theorem written_str (t : String) : written (.str t) = (quoted t).toList ++ [','] := rfl

theorem written_list (xs : List ContextValue) : written (.list xs) = '[' :: (xs.flatMap written ++ [']', ',']) := by
  show ("[" ++ fingerprintItems xs ++ "]").toList ++ [','] = _
  simp [toList_fingerprintItems]

theorem written_map (xs : List (String × ContextValue)) :
    written (.map xs) = '\x7b' :: (xs.flatMap writtenEntry ++ ['\x7d', ',']) := by
  show ("\x7b" ++ fingerprintEntries xs ++ "\x7d").toList ++ [','] = _
  simp [toList_fingerprintEntries]

theorem written_block (bit : Bit) (context : List (String × ContextValue)) (metadata : List (String × Tree)) :
    written (.block bit context metadata) = "block(".toList ++ ((sourceText bit.source).toList ++
      ("|\x7b".toList ++ (context.flatMap writtenEntry ++ ['\x7d', ')', ',']))) := by
  show ("block(" ++ sourceText bit.source ++ "|\x7b" ++ fingerprintEntries context ++ "\x7d)").toList ++ [','] = _
  simp [toList_fingerprintEntries]

theorem written_constant (c : Constant) : written (.constant c) =
    "constant(".toList ++ ((quoted c.symbol).toList ++ (['='] ++ ((quoted c.value).toList ++ [')', ',']))) := by
  show ("constant(" ++ quoted c.symbol ++ "=" ++ quoted c.value ++ ")").toList ++ [','] = _
  simp

theorem written_stop (v : ContextValue) : ∃ c rest, written v = c :: rest ∧ c ≠ ']' := by
  obtain ⟨c, rest, hv, hc⟩ := kind_fingerprint v
  refine ⟨c, _, by rw [written, hv]; rfl, ?_⟩
  rintro rfl
  cases hc

theorem writtenEntry_stop (e : String × ContextValue) : ∃ c rest, writtenEntry e = c :: rest ∧ c ≠ '\x7d' :=
  ⟨'"', _, by rw [writtenEntry, toList_quoted]; rfl, by decide⟩

theorem telling_writtenEntry {e : String × ContextValue} (h : Telling written SameContent e.2) :
    Telling writtenEntry SameEntry e := by
  have hkey : Telling (fun e : String × ContextValue => (quoted e.1).toList) (fun e f => e.1 = f.1) e :=
    fun f => telling_quoted e.1 f.1
  have hvalue : Telling (fun e : String × ContextValue => written e.2) (fun e f => SameContent e.2 f.2) e :=
    fun f => h f.2
  exact hkey.append (hvalue.behind [':'])

theorem written_kind {v w : ContextValue} {r s : List Char} (h : written v ++ r = written w ++ s) : v.kind = w.kind := by
  unfold written at h
  rw [List.append_assoc, List.append_assoc] at h
  exact kind_eq h

theorem telling_null : Telling written SameContent .null := by
  intro w r s h
  cases w with
  | null => exact ⟨trivial, List.append_cancel_left h⟩
  | _ => cases written_kind h

theorem telling_bool (b : Bool) : Telling written SameContent (.bool b) := by
  intro w r s h
  cases w with
  | bool b' =>
    -- Of the two words, the first letters differ.
    cases b <;> cases b' <;> first | exact ⟨rfl, List.append_cancel_left h⟩ | cases h
  | _ => cases written_kind h

theorem telling_num (n : Number) : Telling written SameContent (.num n) := by
  intro w r s h
  cases w with
  | num n' =>
    have hcomma : ∀ n : Number, ',' ∉ n.text.toList := fun n hn => absurd (n.numeral_text.chars _ hn) (by decide)
    rw [written_num, written_num] at h
    exact (telling_stopped hcomma n n' r s h).imp_left String.toList_inj.mp
  | _ => cases written_kind h

theorem telling_str (t : String) : Telling written SameContent (.str t) := by
  intro w r s h
  cases w with
  | str t' =>
    rw [written_str, written_str] at h
    exact (telling_quoted t).before [','] t' r s h
  | _ => cases written_kind h

theorem telling_list {xs : List ContextValue} (hxs : ∀ v ∈ xs, Telling written SameContent v) :
    Telling written SameContent (.list xs) := by
  intro w r s h
  cases w with
  | list ys =>
    rw [written_list, written_list, List.cons_append, List.cons_append, List.append_assoc, List.append_assoc] at h
    obtain ⟨hsame, h⟩ := Telling.flatMap written_stop hxs (List.cons.inj h).2
    exact ⟨sameItems_of_forall₂ hsame, List.tail_eq_of_cons_eq h⟩
  | _ => cases written_kind h

theorem telling_map {xs : List (String × ContextValue)} (hxs : ∀ e ∈ xs, Telling writtenEntry SameEntry e) :
    Telling written SameContent (.map xs) := by
  intro w r s h
  cases w with
  | map ys =>
    rw [written_map, written_map, List.cons_append, List.cons_append, List.append_assoc, List.append_assoc] at h
    obtain ⟨hsame, h⟩ := Telling.flatMap writtenEntry_stop hxs (List.cons.inj h).2
    exact ⟨sameEntries_of_forall₂ hsame, List.tail_eq_of_cons_eq h⟩
  | _ => cases written_kind h

theorem telling_block {xs : List (String × ContextValue)} (hxs : ∀ e ∈ xs, Telling writtenEntry SameEntry e) (bit : Bit)
    (metadata : List (String × Tree)) : Telling written SameContent (.block bit xs metadata) := by
  intro w r s h
  cases w with
  | block bit' ys metadata' =>
    rw [written_block, written_block] at h
    simp only [List.append_assoc] at h
    obtain ⟨hsource, h⟩ := telling_sourceText bit.source bit'.source _ _ (List.append_cancel_left h)
    obtain ⟨hsame, h⟩ := Telling.flatMap writtenEntry_stop hxs (List.append_cancel_left h)
    exact ⟨⟨hsource, sameEntries_of_forall₂ hsame⟩, List.append_cancel_left h⟩
  | _ => cases written_kind h

theorem telling_constant (c : Constant) : Telling written SameContent (.constant c) := by
  intro w r s h
  cases w with
  | constant c' =>
    have hsymbol : Telling (fun c : Constant => (quoted c.symbol).toList) (fun c c' => c.symbol = c'.symbol) c :=
      fun c' => telling_quoted c.symbol c'.symbol
    have hvalue : Telling (fun c : Constant => (quoted c.value).toList) (fun c c' => c.value = c'.value) c :=
      fun c' => telling_quoted c.value c'.value
    rw [written_constant, written_constant] at h
    exact (hsymbol.append ((hvalue.before [')', ',']).behind ['='])).behind _ c' r s h
  | _ => cases written_kind h

mutual

/-- A fingerprint with a comma behind it tells the content of its value. -/
theorem telling_fingerprint (v : ContextValue) : Telling written SameContent v := by
  cases v with
  | null => exact telling_null
  | bool b => exact telling_bool b
  | num n => exact telling_num n
  | str s => exact telling_str s
  | list xs => exact telling_list (telling_items xs)
  | map xs => exact telling_map (telling_entries xs)
  | block bit xs metadata => exact telling_block (telling_entries xs) bit metadata
  | constant c => exact telling_constant c

theorem telling_items (xs : List ContextValue) : ∀ v ∈ xs, Telling written SameContent v := by
  cases xs with
  | nil => exact nofun
  | cons v rest => exact List.forall_mem_cons.mpr ⟨telling_fingerprint v, telling_items rest⟩

theorem telling_entries (xs : List (String × ContextValue)) : ∀ e ∈ xs, Telling writtenEntry SameEntry e := by
  cases xs with
  | nil => exact nofun
  | cons e rest =>
    obtain ⟨k, v⟩ := e
    exact List.forall_mem_cons.mpr ⟨telling_writtenEntry (telling_fingerprint v), telling_entries rest⟩

end

/-- Fingerprints are the same if and only if the values have the same content. -/
theorem fingerprint_eq_iff {v w : ContextValue} : v.fingerprint = w.fingerprint ↔ v.SameContent w := by
  refine ⟨fun h => ?_, fingerprint_of_sameContent v w⟩
  have hwritten : written v ++ [] = written w ++ [] := by rw [written, written, h]
  exact (telling_fingerprint v w [] [] hwritten).1

end ContextValue

namespace Compose

open ContextValue Text

/-- Each key is that of an item that is kept. -/
theorem exists_mem_firsts {α : Type} {key? : α → Option String} {items : List α} :
    ∀ a ∈ items, ∃ first ∈ firsts key? [] items, key? first = key? a := by
  induction items using List.reverseRecOn with
  | nil => exact nofun
  | append_singleton items last ih =>
    rw [firsts_append, firsts_cons, List.nil_append, firsts_nil]
    have hkept : ∀ a ∈ items, ∃ first ∈ firsts key? [] items ++ (if New key? items last then [last] else []),
        key? first = key? a := fun a ha => by
      obtain ⟨first, hfirst, hkey⟩ := ih a ha
      exact ⟨first, List.mem_append_left _ hfirst, hkey⟩
    refine List.forall_mem_append.mpr ⟨hkept, List.forall_mem_singleton.mpr ?_⟩
    by_cases hnew : New key? items last
    · rw [if_pos hnew]
      exact ⟨last, List.mem_append_right _ (List.mem_cons_self ..), rfl⟩
    · obtain ⟨a, ha, hkey⟩ := List.mem_map.mp (not_not.mp (not_or.mp hnew).2)
      obtain ⟨first, hfirst, hfirstkey⟩ := hkept a ha
      exact ⟨first, hfirst, hfirstkey.trans hkey⟩

/-- Values of different content whose fingerprints have the same hash. -/
def Collide (v w : ContextValue) : Prop :=
  ¬ v.SameContent w ∧ SipHash.ofText v.fingerprint = SipHash.ofText w.fingerprint

theorem key?_byHash_eq_iff {v w : ContextValue} :
    Dedupe.byHash.key? v = Dedupe.byHash.key? w ↔ v.SameContent w ∨ Collide v w := by
  unfold Dedupe.key? Collide
  rw [Option.some_inj, SipHash.digits_injective.eq_iff, ← fingerprint_eq_iff]
  constructor
  · intro h
    exact (em (v.fingerprint = w.fingerprint)).imp id fun hne => ⟨hne, h⟩
  · rintro (h | h)
    · rw [h]
    · exact h.2

/-- What is left of a list when duplicates by the hashes of fingerprints are dropped. -/
def distinct (items : List ContextValue) : List ContextValue := (dedupe Dedupe.byHash.key? [] items).1

theorem distinct_eq (items : List ContextValue) : distinct items = firsts Dedupe.byHash.key? [] items :=
  (dedupe_eq .nil items).1

/-- An item is dropped if and only if it has the content of an item that is kept before it, or collides with one. -/
theorem distinct_concat (items : List ContextValue) (v : ContextValue) :
    (∃ u ∈ distinct items, u.SameContent v ∨ Collide u v) ∧ distinct (items ++ [v]) = distinct items ∨
      (∀ u ∈ distinct items, ¬ u.SameContent v) ∧ distinct (items ++ [v]) = distinct items ++ [v] := by
  simp only [distinct_eq]
  rw [firsts_append, firsts_cons, List.nil_append, firsts_nil]
  by_cases hnew : New Dedupe.byHash.key? items v
  · rw [if_pos hnew]
    refine .inr ⟨fun u hu hsame => ?_, rfl⟩
    have hmem : u ∈ items := (firsts_sublist [] items).subset hu
    exact hnew.elim nofun fun h => h (List.mem_map.mpr ⟨u, hmem, key?_byHash_eq_iff.mpr (.inl hsame)⟩)
  · rw [if_neg hnew, List.append_nil]
    obtain ⟨a, ha, hkey⟩ := List.mem_map.mp (not_not.mp (not_or.mp hnew).2)
    obtain ⟨first, hfirst, hfirstkey⟩ := exists_mem_firsts a ha
    exact .inl ⟨⟨first, hfirst, key?_byHash_eq_iff.mp (hfirstkey.trans hkey)⟩, rfl⟩

/-- Two values have the same fingerprint if and only if they have the same content. So of a list without duplicates
by hash there is missing only what has the content of an item that is kept, unless the hashes of two fingerprints
collide; and of groups the same is missing as of all their items in a row. -/
theorem fingerprint_faithful :
    (∀ v w : ContextValue, v.fingerprint = w.fingerprint ↔ v.SameContent w) ∧
      (∀ (items : List ContextValue) (v : ContextValue),
        (∃ u ∈ distinct items, u.SameContent v ∨ Collide u v) ∧ distinct (items ++ [v]) = distinct items ∨
          (∀ u ∈ distinct items, ¬ u.SameContent v) ∧ distinct (items ++ [v]) = distinct items ++ [v]) ∧
      ∀ groups : List (List ContextValue),
        (dedupeGroups Dedupe.byHash.key? [] groups).flatten = distinct groups.flatten := by
  refine ⟨fun v w => fingerprint_eq_iff, distinct_concat, fun groups => ?_⟩
  rw [dedupeGroups_eq .nil, distinct_eq]
  exact flatten_firsts [] groups

end Compose

end Bitpress
