import Bitpress.Proofs.Pattern.Behind

/-!
Classes and the beginnings of groups, with a closing parenthesis behind the text.

A class that does not end in the text takes the parenthesis for one of its characters,
and does not end with it either (`class_behind`). Where flags are not ended, the
parenthesis ends them (`groupStart?_behind`).
-/

namespace Bitpress

namespace Pattern

variable {f : Flags} {cs ds : List Char}

/-! ### Classes -/

theorem classItem?_behind (f : Flags) (cs : List Char) :
    Behind (fun _ r => After cs r) (classItem? f cs) (classItem? f (cs ++ [')'])) := by
  cases cs with
  | nil => exact .used _
  | cons c rest =>
    rw [List.cons_append]
    by_cases hc : c = '\\'
    · subst hc
      simp only [classItem?]
      obtain ⟨e, r, hr, hx, hy⟩ | ⟨hx, hy⟩ | ⟨e, hx, hy⟩ := (escape?_behind f rest).outcome
      · rw [hx, hy]
        have hr : After ('\\' :: rest) r := .of_suffix hr.suffix
        cases e with
        | char => exact .same hr
        | set => exact .same hr
        | «at» => exact .fails
      · rw [hx, hy]
        exact .fails
      · rw [hx, hy]
        cases e with
        | char => exact .used _
        | set => exact .used _
        | «at» => exact .fails
    · simp only [classItem?]
      exact .same .cons

/-- The end of a name in a class, `:]`, is found where it is found without the parenthesis. -/
theorem nameEnd_behind (cs : List Char) :
    (∃ after, after <:+ cs ∧ cs.drop (cs.takeWhile (· != ':')).length = ':' :: ']' :: after ∧
        (cs ++ [')']).takeWhile (· != ':') = cs.takeWhile (· != ':') ∧
        (cs ++ [')']).drop (cs.takeWhile (· != ':')).length = ':' :: ']' :: (after ++ [')'])) ∨
      (∀ after, cs.drop (cs.takeWhile (· != ':')).length = ':' :: ']' :: after → False) ∧
        ∀ after, (cs ++ [')']).drop ((cs ++ [')']).takeWhile (· != ':')).length = ':' :: ']' :: after → False := by
  obtain ⟨c, rest, -, hdrop, htake, hdrop'⟩ | ⟨hdrop, hdrop'⟩ := cut_behind (p := (· != ':')) rfl cs
  · rw [hdrop, htake, hdrop', ← List.cons_append]
    obtain ⟨after, hafter⟩ | hother := front_behind (c := ':') (d := ']') (by decide) (c :: rest)
    · have hsuffix : ':' :: ']' :: after <:+ cs := hafter ▸ hdrop ▸ List.drop_suffix ..
      exact .inl ⟨after, (List.suffix_append [':', ']'] after).trans hsuffix, hafter, rfl, by rw [hafter]; rfl⟩
    · exact .inr hother
  · exact .inr ⟨fun _ h => (by rw [hdrop] at h; cases h), fun _ h => (by rw [hdrop'] at h; cases h)⟩

/-- A named class is there with the parenthesis if it is there without. -/
theorem namedClass?_behind (f : Flags) (cs : List Char) :
    (∃ s r, r <:+ cs ∧ namedClass? f cs = some (s, r) ∧ namedClass? f (cs ++ [')']) = some (s, r ++ [')'])) ∨
      namedClass? f cs = none ∧ namedClass? f (cs ++ [')']) = none := by
  cases cs with
  | nil => exact .inr ⟨rfl, rfl⟩
  | cons c rest =>
    by_cases hc : c = '^'
    · subst hc
      obtain ⟨after, hafter, hdrop, htake, hdrop'⟩ | ⟨hother, hother'⟩ := nameEnd_behind rest
      · simp only [namedClass?, List.cons_append, hdrop, htake, hdrop']
        cases CharSet.ofClassName? (String.ofList (rest.takeWhile (· != ':'))) with
        | none => exact .inr ⟨rfl, rfl⟩
        | some s => exact .inl ⟨_, _, hafter.trans (List.suffix_cons ..), rfl, rfl⟩
      · simp only [namedClass?, List.cons_append]
        exact .inr ⟨trivial, trivial⟩
    · obtain ⟨after, hafter, hdrop, htake, hdrop'⟩ | ⟨hother, hother'⟩ := nameEnd_behind (c :: rest)
      · rw [List.cons_append] at htake hdrop' ⊢
        simp only [namedClass?, List.cons.injEq, hc, false_and, imp_self, implies_true, hdrop, htake, hdrop']
        cases CharSet.ofClassName? (String.ofList ((c :: rest).takeWhile (· != ':'))) with
        | none => exact .inr ⟨rfl, rfl⟩
        | some s => exact .inl ⟨_, _, hafter, rfl, rfl⟩
      · rw [List.cons_append] at hother' ⊢
        simp only [namedClass?, List.cons.injEq, hc, false_and, imp_self, implies_true]
        exact .inr ⟨trivial, trivial⟩

theorem classStart_behind (h : Settled f cs) :
    classStart f (cs ++ [')']) = ((classStart f cs).1, (classStart f cs).2 ++ [')']) := by
  have hdrop := drop_takeWhile_behind (p := (· == '-')) rfl cs
  have hskip := skip_behind (h.suffix (List.drop_suffix (cs.takeWhile (· == '-')).length cs))
  unfold classStart
  dsimp only
  rw [hdrop, hskip, takeWhile_behind rfl]
  split
  · match skip f (cs.drop (cs.takeWhile (· == '-')).length) with
    | [] => rfl
    | c :: rest =>
      rw [List.cons_append]
      by_cases hc : c = ']'
      · subst hc
        rfl
      · simp only [List.cons.injEq, hc, false_and, imp_self, implies_true, List.cons_append]
  · rfl

theorem classStart_suffix (f : Flags) (cs : List Char) : (classStart f cs).2 <:+ cs := by
  have hskip := (skip_suffix f (cs.drop (cs.takeWhile (· == '-')).length)).trans (List.drop_suffix ..)
  unfold classStart
  dsimp only
  split
  · split
    · rename_i heq
      rw [heq] at hskip
      exact (List.suffix_cons ..).trans hskip
    · exact hskip
  · exact hskip

theorem classRange?_behind (h : Settled f cs) :
    Behind (fun _ r => After cs r) (classRange? f cs) (classRange? f (cs ++ [')'])) := by
  unfold classRange?
  obtain ⟨first, r, hr, hx, hy⟩ | ⟨hx, hy⟩ | ⟨first, hx, hy⟩ := (classItem?_behind f cs).outcome
  · have hds := hr.trans (skip_suffix f r)
    rw [hx, hy]
    simp only [Option.bind_some, skip_behind (h.suffix hr.suffix)]
    match skip f r, hds with
    | [], hds => exact .leave fun _ => hds
    | c :: rest, hds =>
      rw [List.cons_append]
      by_cases hc : c = '-'
      · subst hc
        have hrest : After cs rest := hds.trans (List.suffix_cons ..)
        have hes := hrest.trans (skip_suffix f rest)
        simp only [skip_behind (h.suffix hrest.suffix)]
        match skip f rest, hes with
        | [], hes => exact .used_map
        | d :: more, hes =>
          by_cases hclose : d = ']'
          · subst hclose
            exact .leave fun _ => hds
          by_cases hdash : d = '-'
          · subst hdash
            exact .leave fun _ => hds
          simp only [List.cons_append, List.cons.injEq, hclose, hdash, false_and, imp_self, implies_true]
          exact (classItem?_behind f (d :: more)).bind_value fun _ _ _ hr => hr.mono hes.suffix
      · simp only [List.cons.injEq, hc, false_and, imp_self, implies_true]
        exact .leave fun _ => hds
  · rw [hx, hy]
    exact .fails
  · rw [hx, hy]
    simp only [Option.bind_some, Option.bind_none, skip_nil]
    exact .used_map

theorem classItems?_nil (f : Flags) (left : Option (CharSet × SetOp)) (acc : CharSet) (n : Nat) :
    classItems? f left acc [] n = none := by
  cases n with
  | zero => rfl
  | succ n => rw [classItems?, skip_nil]

/-- Goes on with the items of a class after a set. -/
def setThen? (f : Flags) (left : Option (CharSet × SetOp)) (acc : CharSet) (read : Read CharSet) (n : Nat) :
    Read CharSet :=
  match read with
  | some (s, rest) => classItems? f left (.union acc s) rest n
  | none => none

section Steps

variable {left : Option (CharSet × SetOp)} {acc : CharSet} {n m : Nat} (h : Settled f cs)
include h

theorem classStart_items_behind (hds : ds <:+ cs) (g : CharSet → Option CharSet)
    (hitems : ∀ (acc : CharSet) (r : List Char), r <:+ cs →
      Behind (fun _ r => r <:+ cs) (classItems? f none acc r n) (classItems? f none acc (r ++ [')']) m)) :
    Behind (fun _ r => r <:+ cs)
      ((classItems? f none (classStart f ds).1 (classStart f ds).2 n).bind fun (s, r) => (g s).map (·, r))
      ((classItems? f none (classStart f (ds ++ [')'])).1 (classStart f (ds ++ [')'])).2 m).bind
        fun (s, r) => (g s).map (·, r)) := by
  rw [classStart_behind (h.suffix hds)]
  exact (hitems _ _ ((classStart_suffix f ds).trans hds)).bind_value fun _ _ _ hr => hr

theorem classBody?_behind
    (hitems : ∀ (acc : CharSet) (r : List Char), r <:+ cs →
      Behind (fun _ r => r <:+ cs) (classItems? f none acc r n) (classItems? f none acc (r ++ [')']) m)) :
    Behind (fun _ r => r <:+ cs) (classBody? f cs (n + 1)) (classBody? f (cs ++ [')']) (m + 1)) := by
  have hds := skip_suffix f cs
  rw [classBody?, classBody?, skip_behind h]
  match skip f cs, hds with
  | [], hds => exact classStart_items_behind h hds (fun s => (class? f false s).map .bracketed) hitems
  | c :: rest, hds =>
    by_cases hc : c = '^'
    · subst hc
      have hrest : rest <:+ cs := (List.suffix_cons ..).trans hds
      have hbody := classStart_items_behind h ((skip_suffix f rest).trans hrest)
        (fun s => (class? f true s).map .bracketed) hitems
      rw [← skip_behind (h.suffix hrest)] at hbody
      exact hbody
    · have hbody := classStart_items_behind h hds (fun s => (class? f false s).map .bracketed) hitems
      rw [List.cons_append] at hbody ⊢
      simp only [List.cons.injEq, hc, false_and, imp_self, implies_true]
      exact hbody

variable (hitems : ∀ (left : Option (CharSet × SetOp)) (acc : CharSet) (r : List Char), After cs r →
  Behind (fun _ r => r <:+ cs) (classItems? f left acc r n) (classItems? f left acc (r ++ [')']) m))
include hitems

omit h in
theorem setThen?_behind {x y : Read CharSet} (hxy : Behind (fun _ r => After cs r) x y) :
    Behind (fun _ r => r <:+ cs) (setThen? f left acc x n) (setThen? f left acc y m) := by
  cases hxy with
  | same hr => exact hitems _ _ _ hr
  | fails => exact .fails
  | used s =>
    rw [setThen?, setThen?, classItems?_nil]
    exact .fails

theorem classItems?_behind
    (hbody : ∀ r, After cs r → Behind (fun _ u => After cs u) (classBody? f r n) (classBody? f (r ++ [')']) m)) :
    Behind (fun _ r => r <:+ cs) (classItems? f left acc cs (n + 1)) (classItems? f left acc (cs ++ [')']) (m + 1)) := by
  have hds := skip_suffix f cs
  rw [classItems?, classItems?, skip_behind h]
  match skip f cs, hds with
  | [], hds => exact setThen?_behind hitems ((classRange?_behind (h.suffix hds)).mono fun _ _ hr => hr.mono hds)
  | c :: rest, hds =>
    have hrest : After cs rest := After.cons.mono hds
    rw [List.cons_append]
    by_cases hclose : c = ']'
    · subst hclose
      exact .same hrest.suffix
    obtain ⟨more, hmore⟩ | ⟨hand, hand'⟩ := front_behind (c := '&') (d := '&') (by decide) (c :: rest)
    · cases hmore
      exact hitems _ _ more (hrest.trans (List.suffix_cons ..))
    obtain ⟨more, hmore⟩ | ⟨hdash, hdash'⟩ := front_behind (c := '-') (d := '-') (by decide) (c :: rest)
    · cases hmore
      exact hitems _ _ more (hrest.trans (List.suffix_cons ..))
    obtain ⟨more, hmore⟩ | ⟨htilde, htilde'⟩ := front_behind (c := '~') (d := '~') (by decide) (c :: rest)
    · cases hmore
      exact hitems _ _ more (hrest.trans (List.suffix_cons ..))
    by_cases hopen : c = '['
    · subst hopen
      have hnested : Behind (fun _ r => r <:+ cs) (setThen? f left acc (classBody? f rest n) n)
          (setThen? f left acc (classBody? f (rest ++ [')']) m) m) := setThen?_behind hitems (hbody rest hrest)
      match rest with
      | [] => exact hnested
      | d :: more =>
        rw [List.cons_append] at hnested ⊢
        by_cases hcolon : d = ':'
        · subst hcolon
          simp only
          obtain ⟨s, r, hr, hx, hy⟩ | ⟨hx, hy⟩ := namedClass?_behind f more
          · rw [hx, hy]
            cases s with
            | some s => exact hitems _ _ r (hrest.trans (hr.trans (List.suffix_cons ..)))
            | none => exact .fails
          · rw [hx, hy]
            exact hnested
        · simp only [List.cons.injEq, hcolon, false_and, imp_self, implies_true]
          exact hnested
    · have hrange := (classRange?_behind (h.suffix hds)).mono fun _ _ hr => hr.mono hds
      rw [List.cons_append] at hand' hdash' htilde' hrange
      simp only [List.cons.injEq, hclose, hopen, false_and, imp_self, implies_true]
      exact setThen?_behind hitems hrange

end Steps

/-- **A class is read the same in front of a parenthesis, or it takes the parenthesis and does not end.** The fuel bounds
how often its items and the classes in it are read: each takes a character at least. -/
theorem class_behind (n : Nat) :
    (∀ (f : Flags) (cs : List Char) (m : Nat), Settled f cs → 2 * cs.length + 2 ≤ n → 2 * cs.length + 4 ≤ m →
      Behind (fun _ r => r <:+ cs) (classBody? f cs n) (classBody? f (cs ++ [')']) m)) ∧
    ∀ (f : Flags) (left : Option (CharSet × SetOp)) (acc : CharSet) (cs : List Char) (m : Nat), Settled f cs →
      2 * cs.length + 1 ≤ n → 2 * cs.length + 3 ≤ m →
      Behind (fun _ r => r <:+ cs) (classItems? f left acc cs n) (classItems? f left acc (cs ++ [')']) m) := by
  induction n with
  | zero => exact ⟨fun _ _ _ _ h => by omega, fun _ _ _ _ _ _ h => by omega⟩
  | succ n ih =>
    refine ⟨fun f cs m h hn hm => ?_, fun f left acc cs m h hn hm => ?_⟩
    · obtain ⟨m, rfl⟩ : ∃ k, m = k + 1 := ⟨m - 1, by omega⟩
      refine classBody?_behind h fun acc r hr => ?_
      have hlen := hr.length_le
      exact (ih.2 f none acc r m (h.suffix hr) (by omega) (by omega)).mono fun _ _ hu => hu.trans hr
    · obtain ⟨m, rfl⟩ : ∃ k, m = k + 1 := ⟨m - 1, by omega⟩
      refine classItems?_behind h (fun left acc r hr => ?_) fun r hr => ?_
      · have hlen := hr.shorter
        exact (ih.2 f left acc r m (h.suffix hr.suffix) (by omega) (by omega)).mono fun _ _ hu => hu.trans hr.suffix
      · have hlen := hr.shorter
        exact (ih.1 f r m (h.suffix hr.suffix) (by omega) (by omega)).mono fun _ _ hu => hr.trans hu

/-! ### Groups -/

theorem setFlag?_letter {g : Flags} {on : Bool} {c : Char} (hg : setFlag? f on c = some g) : isFlagLetter c := by
  unfold setFlag? at hg
  split at hg
  case h_8 => cases hg
  all_goals rfl

theorem setFlag?_verbose {g : Flags} {on : Bool} {c : Char} (hg : setFlag? f on c = some g) (hc : c ≠ 'x') :
    g.verbose = f.verbose := by
  unfold setFlag? at hg
  split at hg
  case h_4 => exact absurd rfl hc
  case h_8 => cases hg
  all_goals
    cases hg
    rfl

theorem flags?_behind (f : Flags) (on : Bool) (seen : List Char) (last : Option Char) (cs : List Char) :
    (∃ g c r, r <:+ cs ∧ ('x' ∉ cs.takeWhile isFlagLetter → g.verbose = f.verbose) ∧
        flags? f on seen last cs = some (g, c, r) ∧ flags? f on seen last (cs ++ [')']) = some (g, c, r ++ [')'])) ∨
      flags? f on seen last cs = none ∧
        ∀ g c r, flags? f on seen last (cs ++ [')']) = some (g, c, r) → r = [] := by
  induction cs generalizing f on seen last with
  | nil =>
    refine .inr ⟨rfl, fun g c r h => ?_⟩
    simp only [List.nil_append, flags?] at h
    split at h
    · split at h
      · cases h
      · cases h
        rfl
    · contradiction
  | cons c rest ih =>
    have hgo : ∀ (f' : Flags) (on : Bool) (seen : List Char), isFlagLetter c → (c ≠ 'x' → f'.verbose = f.verbose) →
        (∃ g d r, r <:+ c :: rest ∧ ('x' ∉ (c :: rest).takeWhile isFlagLetter → g.verbose = f.verbose) ∧
            flags? f' on seen (some c) rest = some (g, d, r) ∧
            flags? f' on seen (some c) (rest ++ [')']) = some (g, d, r ++ [')'])) ∨
          flags? f' on seen (some c) rest = none ∧
            ∀ g d r, flags? f' on seen (some c) (rest ++ [')']) = some (g, d, r) → r = [] := by
      intro f' on seen hletter hf
      rw [List.takeWhile_cons_of_pos hletter]
      exact (ih f' on seen (some c)).imp_left fun ⟨g, d, r, hr, hg, h⟩ => ⟨g, d, r, hr.trans (List.suffix_cons ..),
        fun hx => (hg fun hmem => hx (List.mem_cons_of_mem c hmem)).trans (hf fun hc => hx (hc ▸ List.mem_cons_self ..)),
        h⟩
    have hfails : (none : Option (Flags × Char × List Char)) = none ∧
        ∀ g d r, (none : Option (Flags × Char × List Char)) = some (g, d, r) → r = [] := ⟨rfl, fun _ _ _ h => by cases h⟩
    rw [List.cons_append]
    simp only [flags?]
    split
    · split
      · exact .inr hfails
      · exact .inl ⟨f, c, rest, List.suffix_cons .., fun _ => rfl, rfl, rfl⟩
    · split
      · rename_i hminus
        split
        · exact hgo f false seen (hminus ▸ rfl) fun _ => rfl
        · exact .inr hfails
      · split
        · exact .inr hfails
        · cases hset : setFlag? f on c with
          | none => exact .inr hfails
          | some g => exact hgo g on (c :: seen) (setFlag?_letter hset) fun hc => setFlag?_verbose hset hc

theorem groupName?_behind (cs : List Char) :
    Behind (fun _ r => r <:+ cs) (groupName? cs) (groupName? (cs ++ [')'])) := by
  unfold groupName?
  dsimp only
  obtain ⟨d, after, hafter, hdrop, htake, hdrop'⟩ | ⟨hdrop, hdrop'⟩ := cut_behind (p := (· != '>')) rfl cs
  · rw [hdrop, htake, hdrop']
    cases cs.takeWhile (· != '>') with
    | nil => exact .fails
    | cons c more =>
      dsimp only
      split
      · exact .same hafter
      · exact .fails
  · rw [hdrop, hdrop']
    cases cs.takeWhile (· != '>') <;> cases (cs ++ [')']).takeWhile (· != '>') <;> exact .fails

/-- How what follows the beginning of a group is read. -/
def GroupStart.reads : GroupStart → Flags
  | .flags f => f
  | .group _ f _ => f

/-- A group that begins with flags, or flags that are set for the rest of the group around them. -/
def flagged? : Option (Flags × Char × List Char) → Read GroupStart
  | some (g, ':', rest) => some (.group false g none, rest)
  | some (g, _, rest) => some (.flags g, rest)
  | none => none

section Groups

variable (h : Settled f ('(' :: '?' :: cs))
include h

theorem flagged?_behind : Behind (fun (g : GroupStart) r => r <:+ cs ∧ Settled g.reads r)
    (flagged? (flags? f true [] none cs)) (flagged? (flags? f true [] none (cs ++ [')']))) := by
  obtain ⟨g, d, r, hr, hg, hx, hy⟩ | ⟨hx, hy⟩ := flags?_behind f true [] none cs
  · have hsettled : Settled g r := h.setFlags hr hg
    rw [hx, hy]
    by_cases hcolon : d = ':'
    · subst hcolon
      exact .same ⟨hr, hsettled⟩
    · simp only [flagged?]
      exact .same (a := GroupStart.flags g) ⟨hr, hsettled⟩
  · rw [hx]
    refine .of_ends fun gs r hr => ?_
    unfold flagged? at hr
    split at hr
    · cases hr
      exact hy _ _ _ ‹_›
    · cases hr
      exact hy _ _ _ ‹_›
    · cases hr

theorem named_behind (hd : ds <:+ cs) : Behind (fun (g : GroupStart) r => r <:+ cs ∧ Settled g.reads r)
    ((groupName? ds).map fun (n, r) => (GroupStart.group true f (some n), r))
    ((groupName? (ds ++ [')'])).map fun (n, r) => (GroupStart.group true f (some n), r)) :=
  (groupName?_behind ds).map (g := fun n => GroupStart.group true f (some n)) fun _ _ hr =>
    ⟨hr.trans hd, h.suffix ((hr.trans hd).trans (List.suffix_append ['(', '?'] cs))⟩

end Groups

theorem groupStart?_behind (h : Settled f ('(' :: cs)) :
    Behind (fun (g : GroupStart) r => r <:+ cs ∧ Settled g.reads r) (groupStart? f cs) (groupStart? f (cs ++ [')'])) := by
  have hcs : Settled f cs := h.suffix (List.suffix_cons ..)
  cases cs with
  | nil => exact .same ⟨List.suffix_refl _, hcs⟩
  | cons c rest =>
    have hlonger : ∀ (g : GroupStart) (r : List Char), r <:+ rest ∧ Settled g.reads r →
        r <:+ c :: rest ∧ Settled g.reads r := fun _ _ hr => ⟨hr.1.trans (List.suffix_cons ..), hr.2⟩
    rw [List.cons_append]
    by_cases hmark : c = '?'
    · subst hmark
      obtain ⟨more, rfl⟩ | ⟨hP, hP'⟩ := front_behind (c := 'P') (d := '<') (by decide) rest
      · exact (named_behind h (List.suffix_append ['P', '<'] more)).mono hlonger
      cases rest with
      | nil => exact (flagged?_behind h).mono hlonger
      | cons d more =>
        by_cases hangle : d = '<'
        · subst hangle
          have hnamed := (named_behind h (List.suffix_cons '<' more)).mono hlonger
          -- Looking behind is not supported; its marks are not the parenthesis, so they are in the text or nowhere.
          cases more with
          | nil => exact hnamed
          | cons e more =>
            by_cases hequal : e = '='
            · subst hequal
              exact .fails
            by_cases hbang : e = '!'
            · subst hbang
              exact .fails
            rw [List.cons_append] at hnamed
            simp only [List.cons_append, groupStart?, List.cons.injEq, hequal, hbang, false_and, imp_self, implies_true]
            exact hnamed
        · have hflags := (flagged?_behind h).mono hlonger
          rw [List.cons_append] at hflags hP' ⊢
          simp only [groupStart?, List.cons.injEq, hangle, false_and, imp_self, implies_true]
          exact hflags
    · simp only [groupStart?, List.cons.injEq, hmark, false_and, imp_self, implies_true]
      exact .same ⟨List.suffix_refl _, hcs⟩

end Pattern

end Bitpress
