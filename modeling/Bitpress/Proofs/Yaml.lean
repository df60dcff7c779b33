import Bitpress.Yaml.Writer

/-!
What YAML text ends with.

Whatever is written, a break is written behind it (`write_map_ended`). It is a line feed,
unless a text that stands in a block has a break of its own at its end: that one ends the
block then, and a block has printable characters only (`isPrintable_of_block`).
-/

namespace Bitpress.Yaml

variable {cs : List Char}

/-- Characters that end with a break. -/
def Ended (cs : List Char) : Prop := ∃ front c, cs = front ++ [c] ∧ isBreak c = true ∧ isPrintable c = true

theorem Ended.append (h : Ended cs) (before : List Char) : Ended (before ++ cs) := by
  obtain ⟨front, c, rfl, hc⟩ := h
  exact ⟨before ++ front, c, (List.append_assoc ..).symm, hc⟩

theorem Ended.cons (h : Ended cs) (c : Char) : Ended (c :: cs) := h.append [c]

theorem ended_feed (before : List Char) : Ended (before ++ ['\n']) := ⟨before, '\n', rfl, rfl, rfl⟩

/-- Characters behind others that end with a break, if there are any. -/
theorem Ended.then (h : Ended cs) {more : List Char} (hmore : more = [] ∨ Ended more) : Ended (cs ++ more) := by
  rcases hmore with rfl | hmore
  · rwa [List.append_nil]
  · exact hmore.append cs

/-! ### Texts -/

theorem indentLines_concat (column : Nat) (lineStart : Bool) (cs : List Char) (c : Char) :
    ∃ front, indentLines column lineStart (cs ++ [c]) = front ++ [c] := by
  induction cs generalizing lineStart with
  | nil =>
    show ∃ front, indentLines column lineStart [c] = front ++ [c]
    unfold indentLines
    split
    · exact ⟨[], rfl⟩
    · exact ⟨_, rfl⟩
  | cons first rest ih =>
    rw [List.cons_append]
    unfold indentLines
    split
    · obtain ⟨front, hfront⟩ := ih true
      exact ⟨first :: front, by rw [hfront]; rfl⟩
    · obtain ⟨front, hfront⟩ := ih false
      rw [hfront]
      exact ⟨_, (List.append_assoc _ (first :: front) [c]).symm⟩

theorem isPrintable_of_block {s : String} (h : styleOf s = .block) : ∀ c ∈ s.toList, isPrintable c = true := by
  have hblock : (shapeOf s.toList).block = true := by
    unfold styleOf at h
    dsimp only at h
    split at h
    · split at h
      · assumption
      · cases h
    · repeat' split at h
      all_goals cases h
  intro c hc
  cases hprintable : isPrintable c with
  | true => rfl
  | false =>
    have hspecial : s.toList.any (fun c => !isPrintable c) = true := List.any_eq_true.mpr ⟨c, hc, by rw [hprintable]; rfl⟩
    have hsome : s.toList.isEmpty = false := List.isEmpty_eq_false_iff_exists_mem.mpr ⟨c, hc⟩
    unfold shapeOf at hblock
    simp [hspecial, hsome] at hblock

theorem inBlock_ended (column : Nat) (h : ∀ c ∈ cs, isPrintable c = true) : Ended (inBlock column cs) := by
  unfold inBlock
  split
  · rename_i hlast
    obtain ⟨c, hc, hbreak⟩ := (Option.any_eq_true ..).mp hlast
    obtain ⟨before, rfl⟩ := List.getLast?_eq_some_iff.mp hc
    obtain ⟨front, hfront⟩ := indentLines_concat column true before c
    have hended : Ended (front ++ [c]) := ⟨front, c, rfl, hbreak, h c List.mem_concat_self⟩
    rw [hfront, List.append_nil]
    exact (hended.cons '\n').append _
  · exact ended_feed _

/-- A text is written with a break behind it. -/
theorem textAt_ended (column : Nat) (s : String) : Ended (textAt column s) := by
  unfold textAt
  split
  · exact ended_feed _
  · exact ended_feed _
  · exact ended_feed _
  · rename_i hstyle
    exact inBlock_ended column (isPrintable_of_block hstyle)

/-! ### Trees -/

mutual

theorem afterMark_ended (column : Nat) : (t : Tree) → Ended (afterMark column t)
  | .list [] => ended_feed " []".toList
  | .map [] => ended_feed " \x7b\x7d".toList
  | .list (t :: rest) => by
    unfold afterMark
    exact (((afterMark_ended (column + 2) t).cons '-').cons ' ').then (items_ended (column + 2) rest)
  | .map (e :: rest) => by
    unfold afterMark
    exact ((entry_ended (column + 2) e).cons ' ').then (entries_ended (column + 2) rest)
  | .str s => by
    unfold afterMark
    exact (textAt_ended (column + 2) s).cons ' '
  | .num n => by
    unfold afterMark
    exact ended_feed _
  | .bool true => ended_feed " true".toList
  | .bool false => ended_feed " false".toList
  | .null => ended_feed " null".toList

theorem afterColon_ended (column : Nat) : (t : Tree) → Ended (afterColon column t)
  | .list [] => ended_feed " []".toList
  | .map [] => ended_feed " \x7b\x7d".toList
  | .list (t :: rest) => by
    unfold afterColon items
    exact ((((afterMark_ended column t).cons '-').append (spaces column)).then (items_ended column rest)).cons '\n'
  | .map (e :: rest) => by
    unfold afterColon entries
    exact (((entry_ended (column + 2) e).append (spaces (column + 2))).then (entries_ended (column + 2) rest)).cons '\n'
  | .str s => by
    unfold afterColon
    exact (textAt_ended (column + 2) s).cons ' '
  | .num n => by
    unfold afterColon
    exact ended_feed _
  | .bool true => ended_feed " true".toList
  | .bool false => ended_feed " false".toList
  | .null => ended_feed " null".toList

theorem items_ended (column : Nat) : (ts : List Tree) → items column ts = [] ∨ Ended (items column ts)
  | [] => .inl (by unfold items; rfl)
  | t :: rest => .inr (by
      unfold items
      exact (((afterMark_ended column t).cons '-').append (spaces column)).then (items_ended column rest))

theorem entry_ended (column : Nat) : (e : String × Tree) → Ended (entry column e)
  | (k, t) => by
    unfold entry
    split
    · exact ((afterColon_ended column t).cons ':').append _
    · exact ((afterMark_ended column t).cons ':').append _

theorem entries_ended (column : Nat) : (es : List (String × Tree)) → entries column es = [] ∨ Ended (entries column es)
  | [] => .inl (by unfold entries; rfl)
  | e :: rest => .inr (by
      unfold entries
      exact ((entry_ended column e).append (spaces column)).then (entries_ended column rest))

end

/-- The text of a map ends with a break. -/
theorem write_map_ended (es : List (String × Tree)) : Ended (write (.map es)).toList := by
  cases es with
  | nil => exact ended_feed "\x7b\x7d".toList
  | cons e rest =>
    rw [write, String.toList_ofList, entries]
    exact ((entry_ended 0 e).append (spaces 0)).then (entries_ended 0 rest)

end Bitpress.Yaml
