import Bitpress.Selection
import Mathlib.Data.List.FinRange
import Mathlib.Data.List.Forall2
import Mathlib.Data.List.Nodup

/-!
Picking from a list looks at the places of its items, and never at the items:
what is picked from a changed list is what is picked from the list, changed
(`pick_map`).

So what is picked is known from picking among the places alone. Numbers drawn
below a bound stay below it (`below_lt`), a shuffled list has its old items
(`shuffle_perm`) and a sample has distinct positions (`sample_sampled`), whatever
the random words are; and with that no place is picked twice (`pick_positions`).
-/

namespace Bitpress

variable {α β : Type} (g : α → β)

namespace Draw

theorem swap_map (xs : List α) (i j : Nat) : swap (xs.map g) i j = (swap xs i j).map g := by
  unfold swap
  rw [List.getElem?_map, List.getElem?_map]
  cases xs[i]? with
  | none => rfl
  | some a =>
    cases xs[j]? with
    | none => rfl
    | some b => simp [List.map_set]

theorem shuffleFrom_map (xs : List α) (i : Nat) (chunk : Chunk) (count : Nat) :
    shuffleFrom (xs.map g) i chunk count = List.map g <$> shuffleFrom xs i chunk count := by
  induction count generalizing xs i chunk with
  | zero => rfl
  | succ count ih =>
    unfold shuffleFrom
    rw [map_bind]
    refine bind_congr fun (j, chunk) => ?_
    dsimp only
    rw [swap_map, ih]

theorem shuffle_map (xs : List α) : shuffle (xs.map g) = List.map g <$> shuffle xs := by
  unfold shuffle
  rw [List.length_map]
  split
  · rfl
  · exact shuffleFrom_map g xs 0 {} xs.length

/-! ### What is drawn -/

theorem swap_perm (xs : List α) (i j : Nat) : (swap xs i j).Perm xs := by
  unfold swap
  split
  · rename_i a b ha hb
    obtain ⟨hi, rfl⟩ := List.getElem?_eq_some_iff.mp ha
    obtain ⟨hj, rfl⟩ := List.getElem?_eq_some_iff.mp hb
    exact List.set_set_perm hi hj
  · exact .rfl

theorem shuffleFrom_perm (xs : List α) (i : Nat) (chunk : Chunk) (count : Nat) (d : Draws) :
    ((shuffleFrom xs i chunk count).run d).1.Perm xs := by
  induction count generalizing xs i chunk d with
  | zero => exact .rfl
  | succ count ih => exact (ih ..).trans (swap_perm xs i _)

/-- Shuffling moves items about, whatever words there are. -/
theorem shuffle_perm (xs : List α) (d : Draws) : ((shuffle xs).run d).1.Perm xs := by
  unfold shuffle
  split
  · exact .rfl
  · exact shuffleFrom_perm xs 0 {} xs.length d

theorem mul_word_le (w : UInt32) (bound : Nat) : w.toNat * bound + bound ≤ wordCount * bound := by
  have hw : w.toNat + 1 ≤ wordCount := w.toNat_lt
  have h := Nat.mul_le_mul_right bound hw
  rwa [Nat.add_mul, Nat.one_mul] at h

/-- When a second word carries something over, the first one was not the last below the bound. -/
theorem high_add_one_lt {bound first second : Nat} (hfirst : first + bound ≤ wordCount * bound)
    (hsecond : second + bound ≤ wordCount * bound) (hcarry : wordCount ≤ first % wordCount + second / wordCount) :
    first / wordCount + 1 < bound := by
  unfold wordCount at *
  omega

theorem below_lt {bound : Nat} (h : 0 < bound) (d : Draws) : ((below bound).run d).1 < bound := by
  have hfirst := mul_word_le (d.source d.used) bound
  have hsecond := mul_word_le (d.source (d.used + 1)) bound
  have hhigh : (d.source d.used).toNat * bound / wordCount < bound := by
    rw [Nat.div_lt_iff_lt_mul (by decide), Nat.mul_comm bound]
    omega
  show Prod.fst ((ite _ _ _ : Draw Nat).run _) < bound
  split
  · show (if _ then _ else _) < bound
    split
    · rename_i hcarry
      exact high_add_one_lt hfirst hsecond hcarry
    · exact hhigh
  · exact hhigh

/-! ### Samples -/

/-- Distinct positions of a list, as many as there should be. -/
structure Sampled (length amount : Nat) (positions : List Nat) : Prop where
  nodup : positions.Nodup
  within : ∀ p ∈ positions, p < length
  size : positions.length = amount

theorem pickInPlace_perm (positions : List Nat) (i count : Nat) (d : Draws) :
    ((pickInPlace positions i count).run d).1.Perm positions := by
  induction count generalizing positions i d with
  | zero => exact .rfl
  | succ count ih => exact (ih ..).trans (swap_perm positions i _)

/-- The next end is not among the picked positions, so it may stand in for the one that is drawn. -/
theorem Sampled.step {picked : List Nat} {j amount t : Nat} (h : Sampled j amount picked) (ht : t < j + 1) :
    Sampled (j + 1) (amount + 1) ((picked.map fun p => if p = t then j else p) ++ [t]) := by
  have hmoved : ∀ p ∈ picked, (if p = t then j else p) < j + 1 ∧ (if p = t then j else p) ≠ t := fun p hp => by
    have := h.within p hp
    split_ifs <;> omega
  refine ⟨List.nodup_append.mpr ⟨h.nodup.map_on fun p hp q hq => ?_, List.nodup_singleton t, ?_⟩, ?_, ?_⟩
  · have := h.within p hp
    have := h.within q hq
    split_ifs <;> omega
  · intro p hp q hq
    obtain ⟨p, hp', rfl⟩ := List.mem_map.mp hp
    rw [List.mem_singleton.mp hq]
    exact (hmoved p hp').2
  · rw [List.forall_mem_append, List.forall_mem_map, List.forall_mem_singleton]
    exact ⟨fun p hp => (hmoved p hp).1, ht⟩
  · rw [List.length_append, List.length_map, List.length_singleton, h.size]

theorem pickByEnds_sampled {picked : List Nat} {j amount : Nat} (h : Sampled j amount picked) (count : Nat) (d : Draws) :
    Sampled (j + count) (amount + count) ((pickByEnds picked j count).run d).1 := by
  induction count generalizing picked j amount d with
  | zero => exact h
  | succ count ih =>
    have := ih (h.step (below_lt (Nat.succ_pos j) d)) ((below (j + 1)).run d).2
    rwa [Nat.add_right_comm, Nat.add_right_comm amount] at this

theorem Sampled.concat {length amount p : Nat} {picked : List Nat} (h : Sampled length amount picked) (hp : p < length)
    (hnew : p ∉ picked) : Sampled length (amount + 1) (picked ++ [p]) where
  nodup := by
    rw [← List.concat_eq_append]
    exact h.nodup.concat hnew
  within := List.forall_mem_append.mpr ⟨h.within, fun q hq => by rwa [List.mem_singleton.mp hq]⟩
  size := by rw [List.length_append, List.length_singleton, h.size]

/-- Where not all positions are picked, some position is left. -/
theorem Sampled.exists_fresh {length amount : Nat} {picked : List Nat} (h : Sampled length amount picked)
    (hmore : amount < length) : ∃ p < length, p ∉ picked := by
  by_contra hnone
  have hall : List.range length ⊆ picked := fun p hp => by
    by_contra hp'
    exact hnone ⟨p, List.mem_range.mp hp, hp'⟩
  have hlength := (List.subperm_of_subset List.nodup_range hall).length_le
  rw [List.length_range, h.size] at hlength
  exact Nat.not_le_of_lt hmore hlength

/-- Whatever the words are, the next position is another one. -/
theorem freshPosition_fresh {length amount : Nat} {picked : List Nat} (h : Sampled length amount picked)
    (hmore : amount < length) (tries : Nat) (d : Draws) :
    ((freshPosition length picked tries).run d).1 < length ∧ ((freshPosition length picked tries).run d).1 ∉ picked := by
  induction tries generalizing d with
  | zero =>
    show ((List.range length).find? fun p => !picked.contains p).getD 0 < length ∧
      ((List.range length).find? fun p => !picked.contains p).getD 0 ∉ picked
    cases hfound : (List.range length).find? fun p => !picked.contains p with
    | none =>
      obtain ⟨p, hp, hfresh⟩ := h.exists_fresh hmore
      have hpicked := List.find?_eq_none.mp hfound p (List.mem_range.mpr hp)
      exact absurd (by simpa using hpicked) hfresh
    | some p => exact ⟨List.mem_range.mp (List.mem_of_find?_eq_some hfound), by simpa using List.find?_some hfound⟩
  | succ tries ih =>
    show Prod.fst ((ite _ _ _ : Draw Nat).run _) < length ∧ Prod.fst ((ite _ _ _ : Draw Nat).run _) ∉ picked
    split
    · exact ih _
    · rename_i hkept
      have hfresh : (d.source d.used).toNat * length / wordCount ∉ picked := by
        rw [Bool.or_eq_true, not_or] at hkept
        simpa using hkept.2
      refine ⟨?_, hfresh⟩
      show (d.source d.used).toNat * length / wordCount < length
      have hword := mul_word_le (d.source d.used) length
      rw [Nat.div_lt_iff_lt_mul (by decide), Nat.mul_comm length]
      omega

theorem pickFresh_sampled {length amount : Nat} {picked : List Nat} (h : Sampled length amount picked) (count : Nat)
    (hmore : amount + count ≤ length) (d : Draws) :
    Sampled length (amount + count) ((pickFresh length picked count).run d).1 := by
  induction count generalizing picked amount d with
  | zero => exact h
  | succ count ih =>
    obtain ⟨hwithin, hfresh⟩ := freshPosition_fresh h (by omega) tries d
    have := ih (h.concat hwithin hfresh) (by omega) ((freshPosition length picked tries).run d).2
    rwa [Nat.add_right_comm] at this

theorem pickInPlace_sampled {length amount : Nat} (h : amount ≤ length) (d : Draws) :
    Sampled length amount (((pickInPlace (List.range length) 0 amount).run d).1.take amount) := by
  have hperm := pickInPlace_perm (List.range length) 0 amount d
  have hsize := hperm.length_eq
  rw [List.length_range] at hsize
  exact ⟨(hperm.nodup_iff.mpr List.nodup_range).sublist (List.take_sublist ..),
    fun p hp => List.mem_range.mp (hperm.subset (List.mem_of_mem_take hp)), List.length_take_of_le (h.trans_eq hsize.symm)⟩

/-- A sample has distinct positions, whichever way it is made. -/
theorem sample_sampled {length amount : Nat} (h : amount ≤ length) (d : Draws) :
    Sampled length amount ((sample length amount).run d).1 := by
  unfold sample
  split_ifs
  · exact pickInPlace_sampled h d
  · have hnone : Sampled (length - amount) 0 [] := ⟨List.nodup_nil, nofun, rfl⟩
    have hends := pickByEnds_sampled hnone amount d
    rwa [Nat.sub_add_cancel h, Nat.zero_add] at hends
  · have hnone : Sampled length 0 [] := ⟨List.nodup_nil, nofun, rfl⟩
    have hfresh := pickFresh_sampled hnone amount (by omega) d
    rwa [Nat.zero_add] at hfresh

end Draw

namespace Selection

theorem atPlaces_map (items : List α) (places : List Int) :
    atPlaces (items.map g) places = (atPlaces items places).map g := by
  unfold atPlaces
  rw [List.map_filterMap]
  refine congrArg (List.filterMap · places) (funext fun i => ?_)
  split
  · rw [List.getElem?_map]
  · rfl

theorem maybeShuffled_map (shuffle : Bool) (items : List α) :
    maybeShuffled shuffle (items.map g) = List.map g <$> maybeShuffled shuffle items := by
  cases shuffle with
  | false => rfl
  | true => exact Draw.shuffle_map g items

theorem maybeSampled_map (amount : Option Nat) (items : List α) :
    maybeSampled amount (items.map g) = List.map g <$> maybeSampled amount items := by
  cases amount with
  | none => rfl
  | some n =>
    unfold maybeSampled
    dsimp only
    rw [List.length_map, map_bind]
    refine bind_congr fun positions => ?_
    rw [map_pure, List.map_filterMap]
    exact congrArg (fun pick => Pure.pure (positions.filterMap pick)) (funext fun i => List.getElem?_map ..)

theorem cut_map (offset count : Option Nat) (items : List α) :
    cut offset count (items.map g) = (cut offset count items).map g := by
  unfold cut
  cases count with
  | none => rw [List.map_drop]
  | some n =>
    dsimp only
    rw [List.map_take, List.map_drop]

theorem pick_map (source : RandomSource) (s : SelectSpec) (items : List α) :
    pick source s (items.map g) = (pick source s items).map g := by
  unfold pick
  split
  · exact atPlaces_map g items _
  · have hdrawn : (do maybeSampled s.sample (← maybeShuffled s.shuffle (items.map g)) : Draw (List β)) =
        List.map g <$> (do maybeSampled s.sample (← maybeShuffled s.shuffle items) : Draw (List α)) := by
      rw [maybeShuffled_map, bind_map_left, map_bind]
      exact bind_congr fun shuffled => maybeSampled_map g s.sample shuffled
    dsimp only
    rw [hdrawn, ← cut_map]
    rfl

/-- Nothing is picked that was not there. -/
theorem mem_pick {source : RandomSource} {s : SelectSpec} {items : List α} {a : α}
    (h : a ∈ pick source s items) : a ∈ items := by
  -- Picking from the list is picking from its members, seen as items.
  have hmembers := pick_map Subtype.val source s items.attach
  rw [List.attach_map_subtype_val] at hmembers
  rw [hmembers] at h
  obtain ⟨member, _, rfl⟩ := List.mem_map.mp h
  exact member.2

/-! ### Distinct places -/

/-- How many items there are to cut from: a sample of them, if one is taken. -/
def pooled (s : SelectSpec) (length : Nat) : Nat := s.sample.elim length (Nat.min · length)

/-- How many items are asked for, of so many. -/
def asked (s : SelectSpec) (pool : Nat) : Nat := s.k.getD (s.limit.getD pool)

theorem cut_eq (offset count : Option Nat) (items : List α) :
    cut offset count items = (items.drop (min (offset.getD 0) items.length)).take (count.getD items.length) := by
  have hdrop : items.drop (min (offset.getD 0) items.length) = items.drop (offset.getD 0) :=
    List.drop_eq_drop_iff.mpr (by rw [Nat.min_assoc, Nat.min_self])
  unfold cut
  rw [hdrop]
  cases count with
  | none => exact (List.take_of_length_le (by rw [List.length_drop]; exact Nat.sub_le ..)).symm
  | some n => rfl

theorem maybeShuffled_perm (shuffle : Bool) (items : List α) (d : Draws) :
    ((maybeShuffled shuffle items).run d).1.Perm items := by
  cases shuffle with
  | false => exact .rfl
  | true => exact Draw.shuffle_perm items d

/-- A sample of distinct items has as many distinct items as it should. -/
theorem maybeSampled_nodup {items : List α} (h : items.Nodup) (amount : Option Nat) (d : Draws) :
    ((maybeSampled amount items).run d).1.Nodup ∧
      ((maybeSampled amount items).run d).1.length = amount.elim items.length (Nat.min · items.length) := by
  cases amount with
  | none => exact ⟨h, rfl⟩
  | some n =>
    have hsampled := Draw.sample_sampled (Nat.min_le_right n items.length) d
    have hfound : ∀ p ∈ ((Draw.sample items.length (Nat.min n items.length)).run d).1, items[p]?.isSome := fun p hp => by
      rw [List.getElem?_eq_getElem (hsampled.within p hp)]
      rfl
    refine ⟨hsampled.nodup.filterMap fun p q a hp hq => ?_, ?_⟩
    · obtain ⟨hlt, _⟩ := List.getElem?_eq_some_iff.mp hp
      exact (List.getElem?_inj hlt h).mp (hp.trans hq.symm)
    · exact (List.filterMap_length_eq_length.mpr hfound).trans hsampled.size

/-- What is left of the items after shuffling and sampling. -/
def drawn (source : RandomSource) (s : SelectSpec) (items : List α) : List α :=
  ((do maybeSampled s.sample (← maybeShuffled s.shuffle items) : Draw (List α)).run { source }).1

theorem pick_eq (source : RandomSource) {s : SelectSpec} (hplaces : s.indices = none) (items : List α) :
    pick source s items = ((drawn source s items).drop (min (s.offset.getD 0) (drawn source s items).length)).take
      (asked s (drawn source s items).length) := by
  have hasked (n : Nat) : (s.k <|> s.limit).getD n = asked s n := by
    unfold asked
    cases s.k <;> rfl
  unfold pick
  rw [hplaces, ← hasked]
  exact cut_eq ..

theorem drawn_perm (source : RandomSource) {s : SelectSpec} (hsample : s.sample = none) (items : List α) :
    (drawn source s items).Perm items := by
  unfold drawn
  rw [hsample]
  exact maybeShuffled_perm s.shuffle items { source }

/-- Of distinct items, distinct ones are drawn: all of them, or as many as a sample has. -/
theorem drawn_nodup (source : RandomSource) (s : SelectSpec) {items : List α} (h : items.Nodup) :
    (drawn source s items).Nodup ∧ (drawn source s items).length = pooled s items.length := by
  have hperm := maybeShuffled_perm s.shuffle items { source }
  obtain ⟨hnodup, hlength⟩ := maybeSampled_nodup (hperm.nodup_iff.mpr h) s.sample
    ((maybeShuffled s.shuffle items).run { source }).2
  rw [hperm.length_eq] at hlength
  exact ⟨hnodup, hlength⟩

theorem pick_nodup (source : RandomSource) {s : SelectSpec} (hplaces : s.indices = none) {items : List α}
    (h : items.Nodup) : (pick source s items).Nodup ∧ (pick source s items).length =
      min (asked s (pooled s items.length)) (pooled s items.length - min (s.offset.getD 0) (pooled s items.length)) := by
  obtain ⟨hnodup, hlength⟩ := drawn_nodup source s h
  rw [pick_eq source hplaces, List.length_take, List.length_drop, hlength]
  exact ⟨hnodup.sublist ((List.take_sublist ..).trans (List.drop_sublist ..)), rfl⟩

/-- The items at places are those at the places within the list, one after the other. -/
theorem atPlaces_forall₂ (items : List α) (places : List Int) :
    List.Forall₂ (fun i a => items[(i - 1).toNat]? = some a)
      (places.filter fun i : Int => decide (1 ≤ i ∧ i ≤ items.length)) (atPlaces items places) := by
  induction places with
  | nil => exact .nil
  | cons i rest ih =>
    by_cases h : 1 ≤ i ∧ i ≤ items.length
    · have hlt : (i - 1).toNat < items.length := by omega
      have hitem : items[(i - 1).toNat]? = some items[(i - 1).toNat] := List.getElem?_eq_getElem hlt
      have hcons : atPlaces items (i :: rest) = items[(i - 1).toNat] :: atPlaces items rest :=
        List.filterMap_cons_some ((if_pos h.1).trans hitem)
      rw [List.filter_cons_of_pos (by simpa using h), hcons]
      exact .cons hitem ih
    · have hskip : (if 1 ≤ i then items[(i - 1).toNat]? else none) = none := by
        split
        · exact List.getElem?_eq_none (by omega)
        · rfl
      have hcons : atPlaces items (i :: rest) = atPlaces items rest := List.filterMap_cons_none hskip
      rw [List.filter_cons_of_neg (by simpa using h), hcons]
      exact ih

/-- Without given places, the items at distinct positions are picked: as many as are asked for and left of the list
or of its sample behind the offset; in their order when they are neither shuffled nor sampled, and all of them when
they are only shuffled. With given places, those within the list are picked, one after the other. -/
theorem pick_positions (source : RandomSource) (s : SelectSpec) (items : List α) :
    (s.indices = none →
      (∃ positions : List (Fin items.length), positions.Nodup ∧ pick source s items = positions.map items.get) ∧
      (pick source s items).length =
        min (asked s (pooled s items.length)) (pooled s items.length - min (s.offset.getD 0) (pooled s items.length)) ∧
      (s.shuffle = false → s.sample = none → pick source s items =
        (items.drop (min (s.offset.getD 0) items.length)).take (asked s items.length)) ∧
      (s.shuffle = true → s.sample = none → s.offset = none → s.k = none → s.limit = none →
        (pick source s items).Perm items)) ∧
    ∀ places, s.indices = some places →
      List.Forall₂ (fun i a => items[(i - 1).toNat]? = some a)
        (places.filter fun i : Int => decide (1 ≤ i ∧ i ≤ items.length)) (pick source s items) := by
  refine ⟨fun hplaces => ?_, fun places hplaces => ?_⟩
  · obtain ⟨hnodup, hlength⟩ := pick_nodup source hplaces (List.nodup_finRange items.length)
    have hpick := pick_map items.get source s (List.finRange items.length)
    rw [List.map_get_finRange] at hpick
    rw [List.length_finRange] at hlength
    refine ⟨⟨_, hnodup, hpick⟩, ?_, fun hshuffle hsample => ?_, fun hshuffle hsample hoffset hk hlimit => ?_⟩
    · rw [hpick, List.length_map, hlength]
    · have hdrawn : drawn source s items = items := by
        unfold drawn
        rw [hshuffle, hsample]
        rfl
      rw [pick_eq source hplaces, hdrawn]
    · have hasked (n : Nat) : asked s n = n := by rw [asked, hk, hlimit, Option.getD_none, Option.getD_none]
      rw [pick_eq source hplaces, hasked, hoffset, Option.getD_none, Nat.zero_min, List.drop_zero, List.take_length]
      exact drawn_perm source hsample items
  · unfold pick
    rw [hplaces]
    exact atPlaces_forall₂ items places

/-- Three letters: a sample cut by one, a slice, a shuffle, and places with repeats and some outside the list. -/
theorem pick_positions_letters :
    (∃ positions : List (Fin 3), positions.Nodup ∧
      pick (ChaCha.seeded 7) { sample := some 9, offset := some 1 } ["a", "b", "c"] =
        positions.map ["a", "b", "c"].get) ∧
      (pick (ChaCha.seeded 7) { sample := some 9, offset := some 1 } ["a", "b", "c"]).length = 2 ∧
      pick (ChaCha.seeded 7) { offset := some 1, k := some 1, limit := some 3 } ["a", "b", "c"] = ["b"] ∧
      (pick (ChaCha.seeded 7) { shuffle := true } ["a", "b", "c"]).Perm ["a", "b", "c"] ∧
      List.Forall₂ (fun (i : Int) a => ["a", "b", "c"][(i - 1).toNat]? = some a) [3, 1, 3]
        (pick (ChaCha.seeded 7) { indices := some [3, 0, 1, 4, 3, -1] } ["a", "b", "c"]) := by
  have hsample := (pick_positions (ChaCha.seeded 7) { sample := some 9, offset := some 1 } ["a", "b", "c"]).1 rfl
  have hslice := (pick_positions (ChaCha.seeded 7) { offset := some 1, k := some 1, limit := some 3 } ["a", "b", "c"]).1 rfl
  have hshuffle := (pick_positions (ChaCha.seeded 7) { shuffle := true } ["a", "b", "c"]).1 rfl
  have hplaces := (pick_positions (ChaCha.seeded 7) { indices := some [3, 0, 1, 4, 3, -1] } ["a", "b", "c"]).2 _ rfl
  exact ⟨hsample.1, hsample.2.1, hslice.2.2.1 rfl rfl, hshuffle.2.2.2 rfl rfl rfl rfl rfl, hplaces⟩

end Selection

end Bitpress
