import Bitpress.Collection
import Bitpress.Proofs.Pattern.Bracket

/-!
Patterns that are put in a group after an anchor.

Read in the group, a text gives the pattern that it gives alone, unless a comment of it
is open at its end or it closes a group that it does not open: the first takes the
parenthesis of the group, the second ends the group before its time
(`Pattern.read?_anchored`). The limits on patterns count the anchor and the group too
(`Pattern.parse?_anchored`). So the names that a name filter keeps are those that have
a match from their first character on (`Collection.filter_name`).
-/

namespace Bitpress

namespace Pattern

variable {f : Flags} {cs ds : List Char}

/-! ### Alternatives -/

theorem sequence?_nil {s : Progress} {acc : Option Pattern} {n : Nat} {a : Pattern × Progress} {r : List Char}
    (h : sequence? s acc [] n = some (a, r)) : r = [] := by
  cases n with
  | zero => cases h
  | succ n =>
    rw [sequence?, skip_nil] at h
    cases h
    rfl

theorem alternatives?_nil {s : Progress} {n : Nat} {a : Pattern × Progress} {r : List Char}
    (h : alternatives? s [] n = some (a, r)) : r = [] := by
  cases n with
  | zero => cases h
  | succ n =>
    rw [alternatives?] at h
    split at h
    · cases h
    · rename_i hseq
      cases sequence?_nil hseq
    · rename_i hseq
      cases h
      exact sequence?_nil hseq

/-- What is left after alternatives, with flags that settle it. -/
structure Left (cs : List Char) (a : Pattern × Progress) (r : List Char) : Prop where
  suffix : r <:+ cs
  settled : Settled a.2.flags r

theorem Left.mono {a : Pattern × Progress} {r : List Char} (h : Left ds a r) (hd : ds <:+ cs) : Left cs a r :=
  ⟨h.suffix.trans hd, h.settled⟩

/-- Flags that are set for the rest of a group are no piece that could be repeated. -/
theorem Behind.unrepeated {α : Type} {q : α → List Char → Prop} {x y : Read α} (h : Behind q x y) (ds : List Char) :
    Behind q
    (match ds with
      | '*' :: _ => none
      | '+' :: _ => none
      | '?' :: _ => none
      | '\x7b' :: _ => none
      | _ => x)
    (match ds ++ [')'] with
      | '*' :: _ => none
      | '+' :: _ => none
      | '?' :: _ => none
      | '\x7b' :: _ => none
      | _ => y) := by
  cases ds with
  | nil => exact h
  | cons c rest =>
    by_cases hmark : c ∈ ['*', '+', '?', '\x7b']
    · simp only [List.mem_cons, List.not_mem_nil, or_false] at hmark
      obtain rfl | rfl | rfl | rfl := hmark <;> exact .fails
    · simp only [List.mem_cons, List.not_mem_nil, or_false, not_or] at hmark
      simp only [List.cons_append, List.cons.injEq, hmark, false_and, imp_self, implies_true]
      exact h

/-- What has been read with one more pattern after it. -/
def joined (acc : Option Pattern) (p : Pattern) : Pattern :=
  match acc with
  | some q => .seq q p
  | none => p

/-- Goes on with a sequence after a piece and its repetitions; `join` adds the piece to what has been read. -/
def pieceThen? (s : Progress) (join : Pattern → Pattern) (p : Pattern) (rest : List Char) (n : Nat) :
    Read (Pattern × Progress) :=
  match repeated? s.flags p rest (rest.length + 1) with
  | some (p, rest) => sequence? s (some (join p)) rest n
  | none => none

theorem pieceThen?_nil (s : Progress) (join : Pattern → Pattern) (p : Pattern) (m : Nat) :
    Behind (Left cs) none (pieceThen? s join p [] m) := by
  unfold pieceThen?
  cases hx : repeated? s.flags p [] (([] : List Char).length + 1) with
  | none => exact .fails
  | some pr =>
    obtain ⟨p, r⟩ := pr
    obtain rfl := repeated?_nil hx
    exact .of_ends fun _ _ => sequence?_nil

section Pieces

variable {s : Progress} {acc : Option Pattern} {n m : Nat} {rest : List Char} (join : Pattern → Pattern)
  (hseq : ∀ (s' : Progress) (acc : Option Pattern) (r : List Char), After cs r → Settled s'.flags r →
    Behind (Left cs) (sequence? s' acc r n) (sequence? s' acc (r ++ [')']) m))
include hseq

theorem pieceThen?_behind (h : Settled s.flags cs) (p : Pattern) (hrest : After cs rest) :
    Behind (Left cs) (pieceThen? s join p rest n) (pieceThen? s join p (rest ++ [')']) m) := by
  have hlen : (rest ++ [')']).length = rest.length + 1 := List.length_append
  unfold pieceThen?
  obtain ⟨p, r, hr, hx, hy⟩ | ⟨hx, hy⟩ | ⟨p, hx, hy⟩ :=
    (repeated?_behind (n := rest.length + 1) (m := (rest ++ [')']).length + 1) p (h.suffix hrest.suffix) (by omega)
      (by omega)).outcome
  · rw [hx, hy]
    exact hseq _ _ _ (hrest.trans hr) (h.suffix (hr.trans hrest.suffix))
  · rw [hx, hy]
    exact .fails
  · rw [hx, hy]
    exact .of_ends fun _ _ => sequence?_nil

theorem class_piece_behind (h : Settled s.flags cs) (hrest : After cs rest) : Behind (Left cs)
    (match classBody? s.flags rest (2 * rest.length + 2) with
      | some (set, rest) => pieceThen? s join (.chars set) rest n
      | none => none)
    (match classBody? s.flags (rest ++ [')']) (2 * (rest ++ [')']).length + 2) with
      | some (set, rest) => pieceThen? s join (.chars set) rest m
      | none => none) := by
  have hlen : (rest ++ [')']).length = rest.length + 1 := List.length_append
  obtain ⟨set, r, hr, hx, hy⟩ | ⟨hx, hy⟩ | ⟨set, hx, hy⟩ :=
    ((class_behind _).1 s.flags rest (2 * (rest ++ [')']).length + 2) (h.suffix hrest.suffix) (Nat.le_refl _)
      (by omega)).outcome
  · rw [hx, hy]
    exact pieceThen?_behind join hseq h _ (hrest.trans hr)
  · rw [hx, hy]
    exact .fails
  · rw [hx, hy]
    exact pieceThen?_nil ..

theorem escape_piece_behind (h : Settled s.flags cs) (hrest : After cs rest) : Behind (Left cs)
    (match escape? s.flags rest with
      | some (.char c, rest) => pieceThen? s join (.chars (literal s.flags c)) rest n
      | some (.set set, rest) => pieceThen? s join (.chars set) rest n
      | some (.at a, rest) => pieceThen? s join (.assertion a) rest n
      | none => none)
    (match escape? s.flags (rest ++ [')']) with
      | some (.char c, rest) => pieceThen? s join (.chars (literal s.flags c)) rest m
      | some (.set set, rest) => pieceThen? s join (.chars set) rest m
      | some (.at a, rest) => pieceThen? s join (.assertion a) rest m
      | none => none) := by
  obtain ⟨e, r, hr, hx, hy⟩ | ⟨hx, hy⟩ | ⟨e, hx, hy⟩ := (escape?_behind s.flags rest).outcome
  · have hr := hrest.trans hr.suffix
    rw [hx, hy]
    cases e with
    | char => exact pieceThen?_behind join hseq h _ hr
    | set => exact pieceThen?_behind join hseq h _ hr
    | «at» => exact pieceThen?_behind join hseq h _ hr
  · rw [hx, hy]
    exact .fails
  · rw [hx, hy]
    cases e with
    | char => exact pieceThen?_nil ..
    | set => exact pieceThen?_nil ..
    | «at» => exact pieceThen?_nil ..

variable (halt : ∀ (s' : Progress) (r : List Char), After cs r → Settled s'.flags r →
  Behind (Left cs) (alternatives? s' r n) (alternatives? s' (r ++ [')']) m))
include halt

/-- A group that the text does not close is closed by the parenthesis behind it, and then nothing is left. -/
theorem group_piece_behind (captures : Bool) (h : Settled s.flags cs) (s' : Progress) (hrest : After cs rest)
    (hsettled : Settled s'.flags rest) : Behind (Left cs)
      (match alternatives? s' rest n with
        | some ((p, inner), ')' :: rest) => pieceThen? { s with names := inner.names } join (.group captures p) rest n
        | _ => none)
      (match alternatives? s' (rest ++ [')']) m with
        | some ((p, inner), ')' :: rest) => pieceThen? { s with names := inner.names } join (.group captures p) rest m
        | _ => none) := by
  obtain ⟨⟨p, inner⟩, r, hr, hx, hy⟩ | ⟨hx, hy⟩ | ⟨⟨p, inner⟩, hx, hy⟩ := (halt s' rest hrest hsettled).outcome
  · rw [hx, hy]
    cases r with
    | nil => exact pieceThen?_nil ..
    | cons c more =>
      rw [List.cons_append]
      by_cases hclose : c = ')'
      · subst hclose
        exact pieceThen?_behind (s := { s with names := inner.names }) join hseq h _ (After.cons.mono hr.suffix)
      · split
        · rename_i heq
          cases heq
          exact absurd rfl hclose
        · split
          · rename_i heq
            cases heq
            exact absurd rfl hclose
          · exact .fails
  · rw [hx, hy]
    exact .fails
  · rw [hx, hy]
    exact .fails

theorem open_behind (h : Settled s.flags ('(' :: rest)) (hs : Settled s.flags cs) (hrest : After cs rest) :
    Behind (Left cs)
    (match groupStart? s.flags rest with
      | none => none
      | some (.flags g, rest) =>
        match skip g rest with
        | '*' :: _ => none
        | '+' :: _ => none
        | '?' :: _ => none
        | '\x7b' :: _ => none
        | _ => sequence? { s with flags := g } (some (join .empty)) rest n
      | some (.group captures g name, rest) =>
        if name.any fun n => s.names.contains n then none
        else
          match alternatives? ⟨g, name.toList ++ s.names⟩ rest n with
          | some ((p, inner), ')' :: rest) => pieceThen? { s with names := inner.names } join (.group captures p) rest n
          | _ => none)
    (match groupStart? s.flags (rest ++ [')']) with
      | none => none
      | some (.flags g, rest) =>
        match skip g rest with
        | '*' :: _ => none
        | '+' :: _ => none
        | '?' :: _ => none
        | '\x7b' :: _ => none
        | _ => sequence? { s with flags := g } (some (join .empty)) rest m
      | some (.group captures g name, rest) =>
        if name.any fun n => s.names.contains n then none
        else
          match alternatives? ⟨g, name.toList ++ s.names⟩ rest m with
          | some ((p, inner), ')' :: rest) => pieceThen? { s with names := inner.names } join (.group captures p) rest m
          | _ => none) := by
  obtain ⟨g, r, ⟨hr, hsettled⟩, hx, hy⟩ | ⟨hx, hy⟩ | ⟨g, hx, hy⟩ := (groupStart?_behind h).outcome
  · have hr := hrest.trans hr
    rw [hx, hy]
    cases g with
    | flags g =>
      have hskip : skip g (r ++ [')']) = skip g r ++ [')'] := skip_behind hsettled
      simp only [hskip]
      have hflags := hseq { s with flags := g } (some (join .empty)) r hr hsettled
      exact hflags.unrepeated _
    | group captures g name =>
      simp only
      split
      · exact .fails
      · exact group_piece_behind join hseq halt captures hs _ hr hsettled
  · rw [hx, hy]
    exact .fails
  · rw [hx, hy]
    cases g with
    | flags g =>
      simp only [skip_nil]
      exact .of_ends fun _ _ => sequence?_nil
    | group captures g name =>
      refine .of_ends fun a r hr => ?_
      simp only at hr
      split at hr
      · cases hr
      · split at hr
        · rename_i halt
          cases alternatives?_nil halt
        · cases hr

theorem sequence?_behind (h : Settled s.flags cs) :
    Behind (Left cs) (sequence? s acc cs (n + 1)) (sequence? s acc (cs ++ [')']) (m + 1)) := by
  have hds := skip_suffix s.flags cs
  rw [sequence?, sequence?, skip_behind h]
  dsimp only
  match skip s.flags cs, hds with
  | [], hds => exact .same ⟨hds, h.suffix hds⟩
  | c :: rest, hds =>
    have hrest : After cs rest := After.cons.mono hds
    rw [List.cons_append]
    -- In the order of the reader: the ends of an alternative, repetitions of nothing, and what begins a piece.
    by_cases hbar : c = '|'
    · subst hbar
      exact .same ⟨hds, h.suffix hds⟩
    by_cases hclose : c = ')'
    · subst hclose
      exact .same ⟨hds, h.suffix hds⟩
    by_cases hstar : c = '*'
    · subst hstar
      exact .fails
    by_cases hplus : c = '+'
    · subst hplus
      exact .fails
    by_cases hmark : c = '?'
    · subst hmark
      exact .fails
    by_cases hbrace : c = '\x7b'
    · subst hbrace
      exact .fails
    by_cases hdot : c = '.'
    · subst hdot
      simp only
      split
      · exact .fails
      · exact pieceThen?_behind (joined acc) hseq h _ hrest
    by_cases hcaret : c = '^'
    · subst hcaret
      exact pieceThen?_behind (joined acc) hseq h _ hrest
    by_cases hdollar : c = '$'
    · subst hdollar
      exact pieceThen?_behind (joined acc) hseq h _ hrest
    by_cases hclass : c = '['
    · subst hclass
      exact class_piece_behind (joined acc) hseq h hrest
    by_cases hslash : c = '\\'
    · subst hslash
      exact escape_piece_behind (joined acc) hseq h hrest
    by_cases hopen : c = '('
    · subst hopen
      exact open_behind (joined acc) hseq halt (h.suffix hds) h hrest
    · simp only
      exact pieceThen?_behind (joined acc) hseq h _ hrest

omit hseq in
theorem alternatives?_behind (hfirst : Behind (Left cs) (sequence? s none cs n) (sequence? s none (cs ++ [')']) m)) :
    Behind (Left cs) (alternatives? s cs (n + 1)) (alternatives? s (cs ++ [')']) (m + 1)) := by
  rw [alternatives?, alternatives?]
  obtain ⟨⟨p, s'⟩, r, hr, hx, hy⟩ | ⟨hx, hy⟩ | ⟨⟨p, s'⟩, hx, hy⟩ := hfirst.outcome
  · rw [hx, hy]
    cases r with
    | nil => exact .same hr
    | cons c rest =>
      rw [List.cons_append]
      by_cases hbar : c = '|'
      · subst hbar
        simp only
        obtain ⟨⟨q, s''⟩, r, hr', hx, hy⟩ | ⟨hx, hy⟩ | ⟨⟨q, s''⟩, hx, hy⟩ :=
          (halt s' rest (After.cons.mono hr.suffix) (hr.settled.suffix (List.suffix_cons ..))).outcome
        · rw [hx, hy]
          exact .same ⟨hr'.suffix, hr'.settled⟩
        · rw [hx, hy]
          exact .fails
        · rw [hx, hy]
          exact .used _
      · simp only [List.cons.injEq, hbar, false_and, imp_self, implies_true]
        exact .same hr
  · rw [hx, hy]
    exact .fails
  · rw [hx, hy]
    exact .used _

end Pieces

/-- **Alternatives are read the same in front of a parenthesis, or they take it into a class, an escape or a group of
theirs.** As with classes, each step takes a character at least. -/
theorem alternatives_behind (n : Nat) :
    (∀ (s : Progress) (cs : List Char) (m : Nat), Settled s.flags cs → 2 * cs.length + 2 ≤ n → 2 * cs.length + 4 ≤ m →
      Behind (Left cs) (alternatives? s cs n) (alternatives? s (cs ++ [')']) m)) ∧
    ∀ (s : Progress) (acc : Option Pattern) (cs : List Char) (m : Nat), Settled s.flags cs →
      2 * cs.length + 1 ≤ n → 2 * cs.length + 3 ≤ m →
      Behind (Left cs) (sequence? s acc cs n) (sequence? s acc (cs ++ [')']) m) := by
  induction n with
  | zero => exact ⟨fun _ _ _ _ h => by omega, fun _ _ _ _ _ h => by omega⟩
  | succ n ih =>
    have halt : ∀ (cs : List Char) (m : Nat), 2 * cs.length ≤ n → 2 * cs.length + 2 ≤ m →
        ∀ (s : Progress) (r : List Char), After cs r → Settled s.flags r →
          Behind (Left cs) (alternatives? s r n) (alternatives? s (r ++ [')']) m) := by
      intro cs m hn hm s r hr hsettled
      have hlen := hr.shorter
      exact (ih.1 s r m hsettled (by omega) (by omega)).mono fun _ _ hq => hq.mono hr.suffix
    refine ⟨fun s cs m h hn hm => ?_, fun s acc cs m h hn hm => ?_⟩
    · obtain ⟨m, rfl⟩ : ∃ k, m = k + 1 := ⟨m - 1, by omega⟩
      exact alternatives?_behind (halt cs m (by omega) (by omega)) (ih.2 s none cs m h (by omega) (by omega))
    · obtain ⟨m, rfl⟩ : ∃ k, m = k + 1 := ⟨m - 1, by omega⟩
      refine sequence?_behind (fun s acc r hr hsettled => ?_) (halt cs m (by omega) (by omega)) h
      have hlen := hr.shorter
      exact (ih.2 s acc r m hsettled (by omega) (by omega)).mono fun _ _ hq => hq.mono hr.suffix

/-! ### Anchored patterns -/

/-- The pattern that matches only from the start of a text. -/
def anchored (p : Pattern) : Pattern := .seq (.assertion .textStart) (.group false p)

/-- The anchor and the group take up a part of what the limits leave. -/
theorem fits_of_anchored {p : Pattern} (h : p.anchored.fits) : p.fits := by
  simp only [fits, anchored, depth, size, Bool.and_eq_true, decide_eq_true_eq] at h ⊢
  omega

/-- A text closes a group that it does not open: reading it stops at the parenthesis. -/
def ClosesMore (text : String) : Prop :=
  ∃ a rest, alternatives? ⟨{}, []⟩ text.toList (2 * text.toList.length + 4) = some (a, ')' :: rest)

/-- Alone, such a text is no pattern. -/
theorem parse?_of_closesMore {text : String} (h : ClosesMore text) : parse? text = none := by
  obtain ⟨a, rest, ha⟩ := h
  unfold parse? read?
  dsimp only
  rw [ha]
  rfl

section Anchor

variable {k : Nat} {p : Pattern} {s : Progress}

theorem sequence?_anchor (cs : List Char) (k : Nat) :
    sequence? ⟨{}, []⟩ none ('^' :: '(' :: '?' :: ':' :: cs) (k + 3) =
      match alternatives? ⟨{}, []⟩ cs (k + 1) with
      | some ((p, inner), ')' :: rest) =>
        match repeated? {} (.group false p) rest (rest.length + 1) with
        | some (p, rest) => sequence? ⟨{}, inner.names⟩ (some (.seq (.assertion .textStart) p)) rest (k + 1)
        | none => none
      | _ => none := rfl

theorem alternatives?_anchor (h : alternatives? ⟨{}, []⟩ cs (k + 1) = some ((p, s), [')'])) :
    alternatives? ⟨{}, []⟩ ('^' :: '(' :: '?' :: ':' :: cs) (k + 4) = some ((anchored p, ⟨{}, s.names⟩), []) := by
  rw [alternatives?, sequence?_anchor, h]
  rfl

theorem alternatives?_anchor_eq_none (h : ∀ a rest, alternatives? ⟨{}, []⟩ cs (k + 1) ≠ some (a, ')' :: rest)) :
    alternatives? ⟨{}, []⟩ ('^' :: '(' :: '?' :: ':' :: cs) (k + 4) = none := by
  have hnone : sequence? ⟨{}, []⟩ none ('^' :: '(' :: '?' :: ':' :: cs) (k + 3) = none := by
    rw [sequence?_anchor]
    split
    · rename_i heq
      exact absurd heq (h _ _)
    · rfl
  rw [alternatives?, hnone]

end Anchor

/-- **In its group after the anchor a text is read as it is read alone**, if no comment of it is open at its end and it
closes no group that it does not open. -/
theorem read?_anchored {text : String} (h : Settled {} text.toList) (hclosed : ¬ ClosesMore text) :
    read? ("^(?:" ++ text ++ ")") = (read? text).map anchored := by
  have hlist : ("^(?:" ++ text ++ ")").toList = '^' :: '(' :: '?' :: ':' :: (text.toList ++ [')']) := by
    rw [String.toList_append, String.toList_append]
    rfl
  have hlen : (text.toList ++ [')']).length = text.toList.length + 1 := List.length_append
  have hfuel : 2 * (text.toList.length + 1 + 1 + 1 + 1 + 1) + 4 = (2 * text.toList.length + 10) + 4 := by omega
  unfold read?
  dsimp only
  rw [hlist]
  simp only [List.length_cons, hlen, hfuel]
  obtain ⟨⟨p, s⟩, r, hr, hx, hy⟩ | ⟨hx, hy⟩ | ⟨⟨p, s⟩, hx, hy⟩ :=
    ((alternatives_behind (2 * text.toList.length + 4)).1 ⟨{}, []⟩ text.toList (2 * text.toList.length + 10 + 1) h
      (by omega) (by omega)).outcome
  · cases r with
    | nil =>
      rw [alternatives?_anchor hy, hx]
      rfl
    | cons c rest =>
      have hc : c ≠ ')' := fun hc => hclosed ⟨_, rest, hc ▸ hx⟩
      rw [alternatives?_anchor_eq_none, hx]
      · rfl
      · intro a more he
        rw [hy] at he
        cases he
        exact hc rfl
  · rw [alternatives?_anchor_eq_none, hx]
    · rfl
    · intro a more he
      rw [hy] at he
      cases he
  · rw [alternatives?_anchor_eq_none, hx]
    · rfl
    · intro a more he
      rw [hy] at he
      cases he

/-- So such a text is a pattern after the anchor if it is one that leaves the room for the anchor and the group. -/
theorem parse?_anchored {text : String} (h : Settled {} text.toList) (hclosed : ¬ ClosesMore text) :
    parse? ("^(?:" ++ text ++ ")") = ((parse? text).filter fun p => p.anchored.fits).map anchored := by
  have hfits : (fun p => p.fits && p.anchored.fits) = fits ∘ anchored := by
    funext p
    rw [Function.comp_apply, Bool.and_eq_right_iff_imp]
    exact fits_of_anchored
  unfold parse?
  rw [read?_anchored h hclosed, Option.filter_map, Option.filter_filter, hfits]

/-- Whether a match begins at the first character of a text. -/
def matchesStart (p : Pattern) (s : String) : Bool := !(p.ends s.toList.toArray 0).isEmpty

theorem matchesSomewhere_anchored (p : Pattern) : (anchored p).matchesSomewhere = p.matchesStart := by
  funext s
  have hstart : ends s.toList.toArray (anchored p) 0 = p.ends s.toList.toArray 0 :=
    List.filter_eq_self.mpr fun _ _ => rfl
  have hlater : ∀ i, i ≠ 0 → ends s.toList.toArray (anchored p) i = [] := by
    intro i hi
    have hholds : holds s.toList.toArray i .textStart = false := beq_eq_false_iff_ne.mpr hi
    unfold anchored ends ends
    rw [hholds]
    rfl
  rw [Bool.eq_iff_iff]
  unfold matchesSomewhere matchesStart
  dsimp only
  rw [List.any_eq_true]
  constructor
  · rintro ⟨i, -, hi⟩
    by_cases h0 : i = 0
    · subst h0
      rwa [hstart] at hi
    · rw [hlater i h0] at hi
      cases hi
  · intro h
    exact ⟨0, List.mem_range.mpr (Nat.succ_pos _), by rwa [hstart]⟩

end Pattern

variable {w : String}

theorem Filter.namePattern_eq (h : Pattern.Settled {} w.toList) (hclosed : ¬ Pattern.ClosesMore w) :
    Filter.namePattern w = match (Pattern.parse? w).filter fun p => p.anchored.fits with
      | some p => .ok p.anchored
      | none => .error (.invalidPattern w) := by
  unfold namePattern
  rw [Pattern.parse?_anchored h hclosed]
  cases (Pattern.parse? w).filter fun p => p.anchored.fits <;> rfl

namespace Collection

variable {α : Type} [Element α]

/-- **A name filter keeps the elements whose name its pattern matches from the first character on**, and fails if the
text is no pattern. So it is of all texts without a comment that is open at the end, unless they close a group that
they do not open. -/
theorem filter_name (h : Pattern.Settled {} w.toList) (hclosed : ¬ Pattern.ClosesMore w) (c : Collection α)
    (f : Filter) : c.filter { f with name := some w } =
      match (Pattern.parse? w).filter fun p => p.anchored.fits with
      | some p => (fun found => ⟨found.items.filter fun a => (Element.name? a).any p.matchesStart⟩) <$>
          c.filter { f with name := none }
      | none => .error (.invalidPattern w) := by
  have hnamed : ∀ p : Pattern, satisfies (some p.anchored) { f with name := some w } =
      fun a : α => (Element.name? a).any p.matchesStart && satisfies none { f with name := none } a := by
    intro p
    funext a
    unfold satisfies Element.matchesName
    rw [Option.all_some, Option.all_none, Bool.true_and, Bool.and_assoc, Pattern.matchesSomewhere_anchored]
  unfold filter
  simp only [Option.mapM_some, Option.mapM_none, Filter.namePattern_eq h hclosed]
  cases (Pattern.parse? w).filter fun p => p.anchored.fits with
  | none => rfl
  | some p =>
    show Except.ok _ = Except.ok (Collection.mk _)
    rw [hnamed, List.filter_filter]

/-- A text that closes a group before it opens one of its own becomes an alternative beside the anchor. -/
example : (Pattern.parse? "a)|(?:b").isNone ∧
    (Filter.namePattern "a)|(?:b").toOption.any fun p => p.matchesSomewhere "xb" := by
  decide

/-- A comment that is open at the end takes the closing parenthesis. -/
example : (Pattern.parse? "(?x)a#c").isSome ∧ (Filter.namePattern "(?x)a#c").isOk = false := by
  decide

end Collection

end Bitpress
