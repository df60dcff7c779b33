import Bitpress.Pattern.Parser

/-!
Reading with a closing parenthesis behind the text.

A reader that takes a text in front of a parenthesis does what it does at the end of
the text, or it uses the parenthesis up where it could not go on without it
(`Behind`); then nothing is left to close a group with. A comment that is open at the
end of the text would take the parenthesis too, which is why no comment may be
(`Settled`). Here this is shown of what does not count, of escapes and of repetitions.
-/

namespace Bitpress

namespace Pattern

variable {α β : Type} {f : Flags} {cs ds : List Char}

/-! ### Readings -/

/-- What is left of a text after some of its characters. -/
structure After (cs r : List Char) : Prop where
  suffix : r <:+ cs
  shorter : r.length < cs.length

theorem After.of_suffix {c : Char} {rest r : List Char} (h : r <:+ rest) : After (c :: rest) r :=
  ⟨h.trans (List.suffix_cons ..), Nat.lt_succ_of_le h.length_le⟩

theorem After.cons {c : Char} {rest : List Char} : After (c :: rest) rest := .of_suffix (List.suffix_refl rest)

theorem After.mono {r : List Char} (h : After ds r) (hd : ds <:+ cs) : After cs r :=
  ⟨h.suffix.trans hd, Nat.lt_of_lt_of_le h.shorter hd.length_le⟩

theorem After.trans {r u : List Char} (h : After cs r) (hu : u <:+ r) : After cs u :=
  ⟨hu.trans h.suffix, Nat.lt_of_le_of_lt hu.length_le h.shorter⟩

/-- What is read with a closing parenthesis behind the text, from what is read without it; `q` holds of a value and what
is left of the text. -/
inductive Behind (q : α → List Char → Prop) : Read α → Read α → Prop
  /-- The same is read, and the parenthesis is left. -/
  | same {a : α} {r : List Char} (h : q a r) : Behind q (some (a, r)) (some (a, r ++ [')']))
  | fails : Behind q none none
  /-- Only with the parenthesis something is read, which uses it up. -/
  | used (a : α) : Behind q none (some (a, []))

namespace Behind

variable {q : α → List Char → Prop} {q' : β → List Char → Prop} {x y : Read α}

theorem outcome (h : Behind q x y) :
    (∃ a r, q a r ∧ x = some (a, r) ∧ y = some (a, r ++ [')'])) ∨ (x = none ∧ y = none) ∨
      ∃ a, x = none ∧ y = some (a, []) := by
  cases h with
  | same h => exact .inl ⟨_, _, h, rfl, rfl⟩
  | fails => exact .inr (.inl ⟨rfl, rfl⟩)
  | used a => exact .inr (.inr ⟨a, rfl, rfl⟩)

theorem mono {q' : α → List Char → Prop} (h : Behind q x y) (hq : ∀ a r, q a r → q' a r) : Behind q' x y := by
  cases h with
  | same h => exact .same (hq _ _ h)
  | fails => exact .fails
  | used a => exact .used a

theorem map {g : α → β} (h : Behind q x y) (hq : ∀ a r, q a r → q' (g a) r) :
    Behind q' (x.map fun (a, r) => (g a, r)) (y.map fun (a, r) => (g a, r)) := by
  cases h with
  | same h => exact .same (hq _ _ h)
  | fails => exact .fails
  | used a => exact .used _

theorem of_ends (h : ∀ a r, y = some (a, r) → r = []) : Behind q none y := by
  cases y with
  | none => exact .fails
  | some ar =>
    obtain ⟨a, r⟩ := ar
    obtain rfl := h a r rfl
    exact .used a

/-- A value that does not depend on what is left. -/
theorem leave {o : Option α} {r : List Char} (h : ∀ a, q a r) :
    Behind q (o.map (·, r)) (o.map (·, r ++ [')'])) := by
  cases o with
  | none => exact .fails
  | some a => exact .same (h a)

theorem used_map {o : Option α} : Behind q none (o.map (·, [])) := by
  cases o with
  | none => exact .fails
  | some a => exact .used a

theorem bind_value {g : α → Option β} (h : Behind q x y) (hq : ∀ a b r, q a r → q' b r) :
    Behind q' (x.bind fun (a, r) => (g a).map (·, r)) (y.bind fun (a, r) => (g a).map (·, r)) := by
  cases h with
  | same h => exact .leave fun _ => hq _ _ _ h
  | fails => exact .fails
  | used a => exact .used_map

end Behind

/-! ### What does not count -/

/-- Whether a character can stand among the flags of a group. -/
def isFlagLetter (c : Char) : Bool := "imsxuRU-".toList.contains c

/-- No comment of a text can take what follows the text: each of them ends, or comments count as written, here and after
all flags that are set in it. -/
def Settled (f : Flags) (cs : List Char) : Prop :=
  (∀ rest, '#' :: rest <:+ cs → '\n' ∈ rest) ∨
    f.verbose = false ∧ ∀ rest, '(' :: '?' :: rest <:+ cs → 'x' ∉ rest.takeWhile isFlagLetter

theorem Settled.suffix (h : Settled f cs) (hd : ds <:+ cs) : Settled f ds :=
  h.imp (fun h rest hr => h rest (hr.trans hd)) fun h => ⟨h.1, fun rest hr => h.2 rest (hr.trans hd)⟩

/-- Flags that are set in the text count for what follows. -/
theorem Settled.setFlags {g : Flags} {rest : List Char} (h : Settled f ('(' :: '?' :: rest)) (hd : ds <:+ rest)
    (hg : 'x' ∉ rest.takeWhile isFlagLetter → g.verbose = f.verbose) : Settled g ds :=
  have hd : ds <:+ '(' :: '?' :: rest := hd.trans (List.suffix_append ['(', '?'] rest)
  match h with
  | .inl h => .inl fun rest hr => h rest (hr.trans hd)
  | .inr ⟨hplain, hletters⟩ =>
    .inr ⟨(hg (hletters rest (List.suffix_refl _))).trans hplain, fun rest hr => hletters rest (hr.trans hd)⟩

theorem skipComment_behind (h : '\n' ∈ cs) : skipComment (cs ++ [')']) = skipComment cs ++ [')'] := by
  induction cs with
  | nil => cases h
  | cons c rest ih =>
    by_cases hc : c = '\n'
    · subst hc
      rfl
    · have hrest : '\n' ∈ rest := (List.mem_cons.mp h).resolve_left (Ne.symm hc)
      have hne : (c != '\n') = true := bne_iff_ne.mpr hc
      unfold skipComment at ih ⊢
      rw [List.cons_append, List.dropWhile_cons, if_pos hne, List.dropWhile_cons, if_pos hne]
      exact ih hrest

theorem skipComment_suffix (cs : List Char) : skipComment cs <:+ cs :=
  (List.drop_suffix 1 _).trans (List.dropWhile_suffix _)

theorem skipVerbose_suffix (cs : List Char) (n : Nat) : skipVerbose cs n <:+ cs := by
  induction n generalizing cs with
  | zero => exact List.suffix_refl cs
  | succ n ih =>
    unfold skipVerbose
    split
    · exact ((ih _).trans (skipComment_suffix _)).trans (List.suffix_cons ..)
    · split
      · exact (ih _).trans (List.suffix_cons ..)
      · exact List.suffix_refl _
    · exact List.suffix_refl _

theorem skip_suffix (f : Flags) (cs : List Char) : skip f cs <:+ cs := by
  unfold skip
  split
  · exact skipVerbose_suffix cs _
  · exact List.suffix_refl cs

theorem skip_nil (f : Flags) : skip f [] = [] := by
  unfold skip
  split <;> rfl

theorem skipVerbose_behind {n m : Nat} (h : ∀ rest, '#' :: rest <:+ cs → '\n' ∈ rest) (hn : cs.length < n)
    (hm : cs.length + 1 < m) : skipVerbose (cs ++ [')']) m = skipVerbose cs n ++ [')'] := by
  induction n generalizing cs m with
  | zero => omega
  | succ n ih =>
    obtain ⟨m, rfl⟩ : ∃ k, m = k + 1 := ⟨m - 1, by omega⟩
    cases cs with
    | nil => rfl
    | cons c rest =>
      have hrest : ∀ ds, ds <:+ rest → ∀ more, '#' :: more <:+ ds → '\n' ∈ more := fun ds hd more hmore =>
        h more ((hmore.trans hd).trans (List.suffix_cons ..))
      simp only [List.length_cons] at hn hm
      by_cases hc : c = '#'
      · -- The comment ends in the text, so the parenthesis is not in it.
        subst hc
        have hlen := (skipComment_suffix rest).length_le
        show skipVerbose (skipComment (rest ++ [')'])) m = skipVerbose (skipComment rest) n ++ [')']
        rw [skipComment_behind (h rest (List.suffix_refl _))]
        exact ih (hrest _ (skipComment_suffix rest)) (by omega) (by omega)
      · rw [List.cons_append]
        unfold skipVerbose
        split
        · rename_i heq
          cases heq
          exact absurd rfl hc
        · rename_i heq
          cases heq
          split
          · exact ih (hrest _ (List.suffix_refl _)) (by omega) (by omega)
          · rfl
        · rename_i heq
          cases heq

theorem skip_behind (h : Settled f cs) : skip f (cs ++ [')']) = skip f cs ++ [')'] := by
  unfold skip
  split
  · rename_i hverbose
    rcases h with h | ⟨hplain, _⟩
    · exact skipVerbose_behind h (by omega) (by simp)
    · rw [hplain] at hverbose
      cases hverbose
  · rfl

theorem takeWhile_behind {p : Char → Bool} (hp : p ')' = false) (cs : List Char) :
    (cs ++ [')']).takeWhile p = cs.takeWhile p := by
  induction cs with
  | nil => exact List.takeWhile_cons_of_neg (by rw [hp]; decide)
  | cons c rest ih => rw [List.cons_append, List.takeWhile_cons, List.takeWhile_cons, ih]

theorem drop_takeWhile_behind {p : Char → Bool} (hp : p ')' = false) (cs : List Char) :
    (cs ++ [')']).drop ((cs ++ [')']).takeWhile p).length = cs.drop (cs.takeWhile p).length ++ [')'] := by
  rw [takeWhile_behind hp, List.drop_append_of_le_length (List.takeWhile_prefix p).length_le]

/-- Two characters at the front are there without what follows the text, if the second is not the parenthesis. -/
theorem front_behind {c d : Char} (hd : d ≠ ')') (cs : List Char) :
    (∃ rest, cs = c :: d :: rest) ∨
      (∀ rest, cs = c :: d :: rest → False) ∧ ∀ rest, cs ++ [')'] = c :: d :: rest → False := by
  match cs with
  | [] => exact .inr ⟨fun _ h => (by cases h), fun _ h => (by cases h)⟩
  | [a] => exact .inr ⟨fun _ h => (by cases h), fun _ h => (by cases h; exact hd rfl)⟩
  | a :: b :: rest =>
    by_cases hab : a = c ∧ b = d
    · exact .inl ⟨rest, by rw [hab.1, hab.2]⟩
    · exact .inr ⟨fun _ h => (by cases h; exact hab ⟨rfl, rfl⟩), fun _ h => (by cases h; exact hab ⟨rfl, rfl⟩)⟩

/-! ### Escapes -/

/-- A text is cut at the same character, if there is one to cut it at. -/
theorem cut_behind {p : Char → Bool} (hp : p ')' = true) (cs : List Char) :
    (∃ c rest, rest <:+ cs ∧ cs.drop (cs.takeWhile p).length = c :: rest ∧
        (cs ++ [')']).takeWhile p = cs.takeWhile p ∧
        (cs ++ [')']).drop (cs.takeWhile p).length = c :: (rest ++ [')'])) ∨
      cs.drop (cs.takeWhile p).length = [] ∧ (cs ++ [')']).drop ((cs ++ [')']).takeWhile p).length = [] := by
  induction cs with
  | nil => exact .inr ⟨rfl, by rw [List.nil_append, List.takeWhile_cons_of_pos hp]; rfl⟩
  | cons c cs ih =>
    by_cases hc : p c
    · simp only [List.cons_append, List.takeWhile_cons_of_pos hc, List.length_cons, List.drop_succ_cons, List.cons.injEq,
        true_and]
      exact ih.imp_left fun ⟨d, rest, hrest, h⟩ => ⟨d, rest, hrest.trans (List.suffix_cons ..), h⟩
    · refine .inl ⟨c, cs, List.suffix_cons .., ?_⟩
      simp only [List.cons_append, List.takeWhile_cons_of_neg hc, List.length_nil, List.drop_zero, and_self]

/-- What stands between braces is read alike. -/
theorem braced_behind (meaning : List Char → Option α) (cs : List Char) :
    Behind (fun _ r => r <:+ '\x7b' :: cs)
      (match cs.drop (cs.takeWhile (· != '\x7d')).length with
        | _ :: after => (meaning (cs.takeWhile (· != '\x7d'))).map (·, after)
        | [] => none)
      (match (cs ++ [')']).drop ((cs ++ [')']).takeWhile (· != '\x7d')).length with
        | _ :: after => (meaning ((cs ++ [')']).takeWhile (· != '\x7d'))).map (·, after)
        | [] => none) := by
  obtain ⟨d, after, hafter, hdrop, htake, hdrop'⟩ | ⟨hdrop, hdrop'⟩ := cut_behind (p := (· != '\x7d')) rfl cs
  · rw [hdrop, htake, hdrop']
    exact .leave fun _ => hafter.trans (List.suffix_cons ..)
  · rw [hdrop, hdrop']
    exact .fails

/-- So many characters are read alike. -/
theorem counted_behind (meaning : List Char → Option α) (width : Nat) (cs : List Char) :
    Behind (fun _ r => r <:+ cs)
      (if cs.length < width then none else (meaning (cs.take width)).map (·, cs.drop width))
      (if (cs ++ [')']).length < width then none
        else (meaning ((cs ++ [')']).take width)).map (·, (cs ++ [')']).drop width)) := by
  by_cases hlen : cs.length < width
  · rw [if_pos hlen]
    refine .of_ends fun a r h => ?_
    split at h
    · cases h
    · obtain ⟨c, -, h⟩ := Option.map_eq_some_iff.mp h
      cases h
      exact List.drop_eq_nil_of_le (by rw [List.length_append]; exact hlen)
  · have hle : width ≤ cs.length := Nat.le_of_not_lt hlen
    rw [if_neg hlen, if_neg (by simp; omega), List.take_append_of_le_length hle, List.drop_append_of_le_length hle]
    exact .leave fun _ => List.drop_suffix ..

theorem hexEscape?_behind (byte : Bool) (width : Nat) (cs : List Char) :
    Behind (fun _ r => r <:+ cs) (hexEscape? byte width cs) (hexEscape? byte width (cs ++ [')'])) := by
  have hcount := counted_behind (fun ds => (charOfHex? ds).filter fun c => !byte || c.toNat < 128) width cs
  cases cs with
  | nil => exact hcount
  | cons c rest =>
    rw [List.cons_append] at hcount ⊢
    by_cases hc : c = '\x7b'
    · subst hc
      simp only [hexEscape?]
      exact braced_behind charOfHex? rest
    · simp only [hexEscape?, List.cons.injEq, hc, false_and, imp_self, implies_true]
      exact hcount

theorem propertyEscape?_behind (f : Flags) (negative : Bool) (cs : List Char) :
    Behind (fun _ r => r <:+ cs) (propertyEscape? f negative cs) (propertyEscape? f negative (cs ++ [')'])) := by
  cases cs with
  | nil =>
    refine .of_ends fun a r h => ?_
    obtain ⟨_, -, h⟩ := Option.map_eq_some_iff.mp h
    cases h
    rfl
  | cons c rest =>
    rw [List.cons_append]
    by_cases hc : c = '\x7b'
    · subst hc
      simp only [propertyEscape?]
      exact braced_behind (property? f negative) rest
    · simp only [propertyEscape?]
      exact .leave fun _ => List.suffix_cons ..

theorem after?_behind {word : List Char} (hword : ')' ∉ word) (cs : List Char) :
    Text.after? word (cs ++ [')']) = (Text.after? word cs).map (· ++ [')']) := by
  induction word generalizing cs with
  | nil => rfl
  | cons w word ih =>
    obtain ⟨hw, hword⟩ := not_or.mp (mt List.mem_cons.mpr hword)
    cases cs with
    | nil => exact if_neg (Ne.symm hw)
    | cons c rest =>
      rw [List.cons_append, Text.after?, Text.after?, ih hword]
      split <;> rfl

theorem after?_suffix {word rest : List Char} (h : Text.after? word cs = some rest) : rest <:+ cs := by
  induction word generalizing cs with
  | nil =>
    cases h
    exact List.suffix_refl _
  | cons w word ih =>
    cases cs with
    | nil => cases h
    | cons c more =>
      rw [Text.after?] at h
      split at h
      · exact (ih h).trans (List.suffix_cons ..)
      · cases h

theorem boundary_behind (cs : List Char) :
    (boundary cs).2 <:+ cs ∧ boundary (cs ++ [')']) = ((boundary cs).1, (boundary cs).2 ++ [')']) := by
  unfold boundary
  rw [after?_behind (by decide), after?_behind (by decide), after?_behind (by decide), after?_behind (by decide)]
  cases hstart : Text.after? "\x7bstart\x7d".toList cs with
  | some rest => exact ⟨after?_suffix hstart, rfl⟩
  | none =>
  cases hend : Text.after? "\x7bend\x7d".toList cs with
  | some rest => exact ⟨after?_suffix hend, rfl⟩
  | none =>
  cases hstart' : Text.after? "\x7bstart-half\x7d".toList cs with
  | some rest => exact ⟨after?_suffix hstart', rfl⟩
  | none =>
  cases hend' : Text.after? "\x7bend-half\x7d".toList cs with
  | some rest => exact ⟨after?_suffix hend', rfl⟩
  | none => exact ⟨List.suffix_refl cs, rfl⟩

theorem escape?_behind (f : Flags) (cs : List Char) :
    Behind (fun _ r => After cs r) (escape? f cs) (escape? f (cs ++ [')'])) := by
  cases cs with
  | nil => exact .used _
  | cons c rest =>
    rw [List.cons_append]
    unfold escape?
    dsimp only
    split
    all_goals try exact (hexEscape?_behind _ _ rest).map fun _ _ h => .of_suffix h
    all_goals try exact (propertyEscape?_behind f _ rest).map fun _ _ h => .of_suffix h
    all_goals try exact .same .cons
    · obtain ⟨hsuffix, hboundary⟩ := boundary_behind rest
      rw [hboundary]
      exact .same (.of_suffix hsuffix)
    · split
      · cases letterClass? f c with
        | none => exact .fails
        | some s => exact .same .cons
      · split
        · exact .same .cons
        · exact .fails

/-! ### Repetitions -/

theorem skipBlanks_behind (cs : List Char) : Text.skipBlanks (cs ++ [')']) = Text.skipBlanks cs ++ [')'] := by
  induction cs with
  | nil => rfl
  | cons c rest ih =>
    unfold Text.skipBlanks at ih ⊢
    rw [List.cons_append, List.dropWhile_cons, List.dropWhile_cons, ih]
    split <;> rfl

theorem decimal?_behind (cs : List Char) :
    Behind (fun _ r => r <:+ cs) (decimal? cs) (decimal? (cs ++ [')'])) := by
  have hblank : ∀ ds : List Char, Text.skipBlanks ds <:+ ds := fun ds => List.dropWhile_suffix _
  have hdrop := drop_takeWhile_behind (p := Char.isDigit) rfl (Text.skipBlanks cs)
  unfold decimal?
  dsimp only
  rw [skipBlanks_behind, hdrop, takeWhile_behind rfl, skipBlanks_behind]
  split
  · exact .fails
  · exact .same (((hblank _).trans (List.drop_suffix ..)).trans (hblank cs))

/-- The upper bound of a repetition, up to the closing brace. -/
theorem upperBound_behind (least : Nat) (cs : List Char) : Behind (fun _ r => r <:+ cs)
    ((decimal? cs).bind fun (most, r) => match r with
      | '\x7d' :: rest => if least ≤ most then some ((least, some most), rest) else none
      | _ => none)
    ((decimal? (cs ++ [')'])).bind fun (most, r) => match r with
      | '\x7d' :: rest => if least ≤ most then some ((least, some most), rest) else none
      | _ => none) := by
  obtain ⟨most, r, hr, hx, hy⟩ | ⟨hx, hy⟩ | ⟨most, hx, hy⟩ := (decimal?_behind cs).outcome
  · rw [hx, hy, Option.bind_some, Option.bind_some]
    match r, hr with
    | [], _ => exact .fails
    | c :: rest, hr =>
      rw [List.cons_append]
      by_cases hclose : c = '\x7d'
      · subst hclose
        simp only
        split
        · exact .same ((List.suffix_cons ..).trans hr)
        · exact .fails
      · simp only [List.cons.injEq, hclose, false_and, imp_self, implies_true]
        exact .fails
  · rw [hx, hy]
    exact .fails
  · rw [hx, hy]
    exact .fails

theorem bounds?_behind (h : Settled f cs) :
    Behind (fun _ r => r <:+ cs) (bounds? f cs) (bounds? f (cs ++ [')'])) := by
  unfold bounds?
  rw [skip_behind h]
  obtain ⟨least, r, hr, hx, hy⟩ | ⟨hx, hy⟩ | ⟨least, hx, hy⟩ := (decimal?_behind (skip f cs)).outcome
  · have hr := hr.trans (skip_suffix f cs)
    rw [hx, hy]
    simp only [Option.bind_eq_bind, Option.bind_some]
    match r, hr with
    | [], _ => exact .fails
    | c :: rest, hr =>
      have hrest : rest <:+ cs := (List.suffix_cons ..).trans hr
      rw [List.cons_append]
      by_cases hclose : c = '\x7d'
      · subst hclose
        exact .same hrest
      by_cases hcomma : c = ','
      · subst hcomma
        have hds := (skip_suffix f rest).trans hrest
        simp only [skip_behind (h.suffix hrest)]
        match skip f rest, hds with
        | [], hds => exact (upperBound_behind least []).mono fun _ _ hr => hr.trans hds
        | d :: more, hds =>
          have hmost := (upperBound_behind least (d :: more)).mono fun _ _ hr => hr.trans hds
          rw [List.cons_append] at hmost ⊢
          by_cases hclose : d = '\x7d'
          · subst hclose
            exact .same ((List.suffix_cons ..).trans hds)
          · simp only [List.cons.injEq, hclose, false_and, imp_self, implies_true]
            exact hmost
      · simp only [List.cons.injEq, hclose, hcomma, false_and, imp_self, implies_true]
        exact .fails
  · rw [hx, hy]
    exact .fails
  · rw [hx, hy]
    exact .fails

theorem dropLazy_behind (cs : List Char) : dropLazy (cs ++ [')']) = dropLazy cs ++ [')'] := by
  cases cs with
  | nil => rfl
  | cons c rest =>
    rw [List.cons_append]
    by_cases hc : c = '?'
    · subst hc
      rfl
    · simp only [dropLazy, List.cons.injEq, hc, false_and, imp_self, implies_true, List.cons_append]

theorem dropLazy_suffix (cs : List Char) : dropLazy cs <:+ cs := by
  unfold dropLazy
  split
  · exact List.suffix_cons ..
  · exact List.suffix_refl _

theorem repeated?_nil {p q : Pattern} {n : Nat} {r : List Char} (h : repeated? f p [] n = some (q, r)) : r = [] := by
  cases n with
  | zero => cases h
  | succ n =>
    rw [repeated?, skip_nil] at h
    cases h
    rfl

theorem repeated?_behind (p : Pattern) {n m : Nat} (h : Settled f cs) (hn : cs.length < n) (hm : cs.length + 1 < m) :
    Behind (fun _ r => r <:+ cs) (repeated? f p cs n) (repeated? f p (cs ++ [')']) m) := by
  induction n generalizing p cs m with
  | zero => omega
  | succ n ih =>
    obtain ⟨m, rfl⟩ : ∃ k, m = k + 1 := ⟨m - 1, by omega⟩
    have hgo : ∀ (p : Pattern) (r : List Char), After cs r → Behind (fun _ r => r <:+ cs)
        (repeated? f p (dropLazy (skip f r)) n) (repeated? f p (dropLazy (skip f (r ++ [')']))) m) := by
      intro p r hr
      have hnext := hr.trans ((dropLazy_suffix _).trans (skip_suffix f r))
      have hlen := hnext.shorter
      rw [skip_behind (h.suffix hr.suffix), dropLazy_behind]
      exact (ih p (h.suffix hnext.suffix) (by omega) (by omega)).mono fun _ _ hq => hq.trans hnext.suffix
    have hds := skip_suffix f cs
    rw [repeated?, repeated?, skip_behind h]
    match skip f cs, hds with
    | [], hds => exact .same hds
    | c :: rest, hds =>
      have hrest : After cs rest := After.cons.mono hds
      rw [List.cons_append]
      by_cases hstar : c = '*'
      · subst hstar
        exact hgo _ rest hrest
      by_cases hplus : c = '+'
      · subst hplus
        exact hgo _ rest hrest
      by_cases hmark : c = '?'
      · subst hmark
        exact hgo _ rest hrest
      by_cases hbrace : c = '\x7b'
      · subst hbrace
        simp only
        obtain ⟨⟨least, most⟩, r, hr, hx, hy⟩ | ⟨hx, hy⟩ | ⟨⟨least, most⟩, hx, hy⟩ :=
          (bounds?_behind (h.suffix hrest.suffix)).outcome
        · rw [hx, hy]
          exact hgo _ r (hrest.trans hr)
        · rw [hx, hy]
          exact .fails
        · rw [hx, hy]
          refine .of_ends fun q r hq => ?_
          simp only [skip_nil, dropLazy] at hq
          exact repeated?_nil hq
      · simp only [List.cons.injEq, hstar, hplus, hmark, hbrace, false_and, imp_self, implies_true]
        exact .same hds

end Pattern

end Bitpress
