import Bitpress.Proofs.Lines
import Bitpress.Text.Quoted
import Bitpress.Text.SipHash
import Mathlib.Data.List.Forall2

/-!
Texts that tell what they are written for.

What is written of a thing tells it if no other thing is written with the same
characters at the front, whatever comes behind (`Telling`). Things that are written
one after the other are told one after the other, up to a character that none of them
begins with (`Telling.flatMap`). So texts in quotes are told (`telling_quoted`), since
every character of a text is, escaped or not (`telling_quotedChar`).
-/

namespace Bitpress.Text

variable {α : Type} {write more : α → List Char} {same same' : α → α → Prop} {a : α}

/-! ### Telling -/

/-- Whatever follows what is written of `a`, no text begins so but one for the same thing, and what follows is the
same. -/
def Telling (write : α → List Char) (same : α → α → Prop) (a : α) : Prop :=
  ∀ b r s, write a ++ r = write b ++ s → same a b ∧ r = s

theorem Telling.append (h : Telling write same a) (h' : Telling more same' a) :
    Telling (fun b => write b ++ more b) (fun a b => same a b ∧ same' a b) a := by
  intro b r s hrs
  rw [List.append_assoc, List.append_assoc] at hrs
  obtain ⟨hsame, hrs⟩ := h b _ _ hrs
  obtain ⟨hsame', hrs⟩ := h' b r s hrs
  exact ⟨⟨hsame, hsame'⟩, hrs⟩

/-- The same word stands before what is written. -/
theorem Telling.behind (h : Telling write same a) (front : List Char) : Telling (fun b => front ++ write b) same a := by
  intro b r s hrs
  rw [List.append_assoc, List.append_assoc] at hrs
  exact h b r s (List.append_cancel_left hrs)

/-- The same word stands after what is written. -/
theorem Telling.before (h : Telling write same a) (back : List Char) : Telling (fun b => write b ++ back) same a := by
  intro b r s hrs
  rw [List.append_assoc, List.append_assoc] at hrs
  obtain ⟨hsame, hrs⟩ := h b _ _ hrs
  exact ⟨hsame, List.append_cancel_left hrs⟩

theorem Telling.imp (h : Telling write same a) (himp : ∀ b, same a b → same' a b) : Telling write same' a :=
  fun b r s hrs => (h b r s hrs).imp_left (himp b)

/-- Where a row of things ends, none of them begins. -/
theorem stop_ne {stop : Char} (hstop : ∀ b, ∃ c rest, write b = c :: rest ∧ c ≠ stop) (b : α)
    (rest r s : List Char) : stop :: r ≠ write b ++ rest ++ stop :: s := by
  intro he
  obtain ⟨c, _, hb, hc⟩ := hstop b
  rw [hb] at he
  exact hc (List.cons.inj he).1.symm

/-- Things in a row are told, up to a character that none of them begins with. -/
theorem Telling.flatMap {stop : Char} (hstop : ∀ b, ∃ c rest, write b = c :: rest ∧ c ≠ stop) {xs : List α}
    (h : ∀ a ∈ xs, Telling write same a) {ys : List α} {r s : List Char}
    (hrs : xs.flatMap write ++ stop :: r = ys.flatMap write ++ stop :: s) : List.Forall₂ same xs ys ∧ r = s := by
  induction xs generalizing ys with
  | nil =>
    cases ys with
    | nil => exact ⟨.nil, List.tail_eq_of_cons_eq hrs⟩
    | cons b ys => exact absurd hrs (stop_ne hstop _ _ _ _)
  | cons a xs ih =>
    obtain ⟨ha, hxs⟩ := List.forall_mem_cons.mp h
    cases ys with
    | nil => exact absurd hrs.symm (stop_ne hstop _ _ _ _)
    | cons b ys =>
      rw [List.flatMap_cons, List.flatMap_cons, List.append_assoc, List.append_assoc] at hrs
      obtain ⟨hsame, hrs⟩ := ha b _ _ hrs
      obtain ⟨hrest, hrs⟩ := ih hxs hrs
      exact ⟨.cons hsame hrest, hrs⟩

theorem intercalate_map_cons (sep : List Char) (write : α → List Char) (a : α) (rest : List α) :
    sep.intercalate ((a :: rest).map write) = write a ++ rest.flatMap fun b => sep ++ write b := by
  induction rest generalizing a with
  | nil => simp
  | cons b rest ih => simp [List.intercalate_cons_cons, ← ih]

/-- Things in a row are told with words between them, too. -/
theorem Telling.intercalate {first stop : Char} {word : List Char} (hfirst : first ≠ stop)
    (hstop : ∀ b, ∃ c rest, write b = c :: rest ∧ c ≠ stop) {xs : List α} (h : ∀ a ∈ xs, Telling write same a)
    {ys : List α} {r s : List Char} (hrs : (first :: word).intercalate (xs.map write) ++ stop :: r =
      (first :: word).intercalate (ys.map write) ++ stop :: s) : List.Forall₂ same xs ys ∧ r = s := by
  have hbetween : ∀ b, ∃ c rest, first :: word ++ write b = c :: rest ∧ c ≠ stop := fun b => ⟨first, _, rfl, hfirst⟩
  cases xs with
  | nil =>
    cases ys with
    | nil => exact ⟨.nil, List.tail_eq_of_cons_eq hrs⟩
    | cons b ys =>
      rw [intercalate_map_cons] at hrs
      exact absurd hrs (stop_ne hstop _ _ _ _)
  | cons a xs =>
    obtain ⟨ha, hxs⟩ := List.forall_mem_cons.mp h
    cases ys with
    | nil =>
      rw [intercalate_map_cons] at hrs
      exact absurd hrs.symm (stop_ne hstop _ _ _ _)
    | cons b ys =>
      rw [intercalate_map_cons, intercalate_map_cons, List.append_assoc, List.append_assoc] at hrs
      obtain ⟨hsame, hrs⟩ := ha b _ _ hrs
      obtain ⟨hrest, hrs⟩ := Telling.flatMap hbetween (fun a ha => (hxs a ha).behind (first :: word)) hrs
      exact ⟨.cons hsame hrest, hrs⟩

/-- A text is told by a character behind it that is not in any text. -/
theorem telling_stopped {stop : Char} (h : ∀ b, stop ∉ write b) (a : α) :
    Telling (fun b => write b ++ [stop]) (fun a b => write a = write b) a := by
  intro b r s hrs
  have hcut : ∀ b r, cutAt? [stop] (write b ++ [stop] ++ r) = some (write b, r) := fun b r => by
    rw [List.append_assoc]
    exact cutAt?_append (h b) r
  have hboth := (hcut a r).symm.trans (hrs ▸ hcut b s)
  exact ⟨congrArg Prod.fst (Option.some.inj hboth), congrArg Prod.snd (Option.some.inj hboth)⟩

/-! ### Hexadecimal digits -/

/-- What a hexadecimal digit stands for. -/
def hexValue (c : Char) : Nat := if c.isDigit then c.toNat - '0'.toNat else c.toNat - 'a'.toNat + 10

/-- What hexadecimal digits stand for. -/
def ofHexDigits (cs : List Char) : Nat := cs.foldl (fun n c => 16 * n + hexValue c) 0

theorem hexValue_digitChar {d : Nat} (h : d < 16) : hexValue d.digitChar = d := by
  have hall : ∀ d : Fin 16, hexValue d.val.digitChar = d.val := by decide
  exact hall ⟨d, h⟩

theorem ofHexDigits_hexDigits (n : Nat) : ofHexDigits (hexDigits n) = n := by
  induction n using Nat.strongRecOn with
  | _ n ih =>
    unfold hexDigits
    rw [Nat.toDigits_eq_if (by decide)]
    split
    · rename_i hn
      show 16 * 0 + hexValue n.digitChar = n
      rw [hexValue_digitChar hn]
      omega
    · rename_i hn
      have hhigh : ofHexDigits (hexDigits (n / 16)) = n / 16 := ih _ (by omega)
      unfold ofHexDigits hexDigits at *
      rw [List.foldl_append, hhigh, List.foldl_cons, List.foldl_nil, hexValue_digitChar (Nat.mod_lt n (by decide))]
      omega

theorem hexDigits_injective : Function.Injective hexDigits := fun m n h => by
  rw [← ofHexDigits_hexDigits m, h, ofHexDigits_hexDigits]

theorem exists_digitChar_of_mem {n : Nat} {c : Char} (h : c ∈ hexDigits n) : ∃ d : Fin 16, c = d.val.digitChar := by
  induction n using Nat.strongRecOn with
  | _ n ih =>
    unfold hexDigits at h
    rw [Nat.toDigits_eq_if (by decide)] at h
    split at h
    · rename_i hn
      exact ⟨⟨n, hn⟩, List.mem_singleton.mp h⟩
    · rename_i hn
      rcases List.mem_append.mp h with h | h
      · exact ih _ (by omega) h
      · exact ⟨⟨n % 16, Nat.mod_lt n (by decide)⟩, List.mem_singleton.mp h⟩

/-- The sixteen digits of a hash tell it. -/
theorem SipHash.digits_injective : Function.Injective SipHash.digits := by
  have hvalue : ∀ hash, ofHexDigits (SipHash.digits hash).toList = hash.toNat := fun hash => by
    have hzeros : ∀ k : Nat, (List.replicate k '0').foldl (fun n c => 16 * n + hexValue c) 0 = 0 := fun k => by
      induction k with
      | zero => rfl
      | succ k ih => exact ih
    unfold SipHash.digits
    rw [String.toList_ofList, ofHexDigits, List.foldl_append, hzeros]
    exact ofHexDigits_hexDigits hash.toNat
  intro hash hash' h
  exact UInt64.toNat_inj.mp ((hvalue hash).symm.trans (h ▸ hvalue hash'))

/-! ### Quotes -/

/-- The characters that are written with one letter behind a backslash. -/
def shortEscapes : List (Char × Char) :=
  [('\x00', '0'), ('\t', 't'), ('\r', 'r'), ('\n', 'n'), ('"', '"'), ('\\', '\\')]

/-- How a character is written between quotes. -/
inductive Escaped (c : Char) : List Char → Prop
  | plain (hquote : c ≠ '"') (hbackslash : c ≠ '\\') : Escaped c [c]
  | short {e : Char} (h : (c, e) ∈ shortEscapes) : Escaped c ['\\', e]
  | code : Escaped c ('\\' :: 'u' :: '\x7b' :: (hexDigits c.toNat ++ ['\x7d']))

theorem escaped_quotedChar (c : Char) : Escaped c (quotedChar c) := by
  unfold quotedChar
  split_ifs with h0 ht hr hn hquote hbackslash
  · subst h0; exact .short (by decide)
  · subst ht; exact .short (by decide)
  · subst hr; exact .short (by decide)
  · subst hn; exact .short (by decide)
  · subst hquote; exact .short (by decide)
  · subst hbackslash; exact .short (by decide)
  · exact .plain hquote hbackslash
  · exact .code

/-- The letter behind a backslash tells what is escaped, and whether a code follows. -/
theorem shortEscapes_apart : (∀ p ∈ shortEscapes, ∀ q ∈ shortEscapes, p.2 = q.2 → p.1 = q.1) ∧
    ∀ p ∈ shortEscapes, p.2 ≠ 'u' := by
  decide

theorem telling_hexDigits (n : Nat) : Telling (fun n => hexDigits n ++ ['\x7d']) (· = ·) n := by
  have hfree : ∀ n, '\x7d' ∉ hexDigits n := fun n h => by
    obtain ⟨d, hd⟩ := exists_digitChar_of_mem h
    have hall : ∀ d : Fin 16, '\x7d' ≠ d.val.digitChar := by decide
    exact hall d hd
  exact (telling_stopped hfree n).imp fun m h => hexDigits_injective h

/-- What is written of a character tells it. -/
theorem telling_quotedChar (c : Char) : Telling quotedChar (· = ·) c := by
  intro d r s hrs
  have hc := escaped_quotedChar c
  have hd := escaped_quotedChar d
  generalize quotedChar c = cs at *
  generalize quotedChar d = ds at *
  obtain ⟨hapart, hcode⟩ := shortEscapes_apart
  cases hc with
  | plain hquote hbackslash =>
    cases hd with
    | plain => exact List.cons.inj hrs
    | short => exact absurd (List.cons.inj hrs).1 hbackslash
    | code => exact absurd (List.cons.inj hrs).1 hbackslash
  | short h =>
    cases hd with
    | plain _ hbackslash => exact absurd (List.cons.inj hrs).1.symm hbackslash
    | short h' =>
      obtain ⟨he, hrs⟩ := List.cons.inj (List.cons.inj hrs).2
      exact ⟨hapart _ h _ h' he, hrs⟩
    | code => exact absurd (List.cons.inj (List.cons.inj hrs).2).1 (hcode _ h)
  | code =>
    cases hd with
    | plain _ hbackslash => exact absurd (List.cons.inj hrs).1.symm hbackslash
    | short h' => exact absurd (List.cons.inj (List.cons.inj hrs).2).1.symm (hcode _ h')
    | code =>
      obtain ⟨hsame, hrs⟩ := telling_hexDigits c.toNat d.toNat r s (by simpa using hrs)
      exact ⟨Char.toNat_inj.mp hsame, hrs⟩

theorem toList_quoted (t : String) : (quoted t).toList = '"' :: (t.toList.flatMap quotedChar ++ ['"']) := by
  rw [quoted, String.toList_ofList]
  rfl

/-- A text in quotes tells the text. -/
theorem telling_quoted (t : String) : Telling (fun t => (quoted t).toList) (· = ·) t := by
  have hstop : ∀ c, ∃ d rest, quotedChar c = d :: rest ∧ d ≠ '"' := fun c => by
    have hc := escaped_quotedChar c
    generalize quotedChar c = cs at *
    cases hc with
    | plain hquote => exact ⟨_, _, rfl, hquote⟩
    | short => exact ⟨_, _, rfl, by decide⟩
    | code => exact ⟨_, _, rfl, by decide⟩
  intro u r s hrs
  change (quoted t).toList ++ r = (quoted u).toList ++ s at hrs
  rw [toList_quoted, toList_quoted, List.cons_append, List.cons_append, List.append_assoc, List.append_assoc] at hrs
  obtain ⟨hsame, hrs⟩ := Telling.flatMap hstop (fun c _ => telling_quotedChar c) (List.cons.inj hrs).2
  rw [List.forall₂_eq_eq_eq] at hsame
  exact ⟨String.toList_inj.mp hsame, hrs⟩

end Bitpress.Text
