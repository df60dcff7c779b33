/-!
Texts from bytes of which some are no text, and the bytes of ranges of characters.
Every longest beginning of a character that does not go on as one is replaced by the
replacement character. In the bytes of a text nothing is replaced (`chars_eq`).
-/

namespace Bitpress.Text

/-- For a first byte: the bounds of the second byte, how many bytes follow in all, and the bits that
the first byte contributes. -/
def leadOf? (b : Nat) : Option (Nat × Nat × Nat × Nat) :=
  if 0xC2 ≤ b ∧ b ≤ 0xDF then some (0x80, 0xBF, 1, b - 0xC0)
  else if b = 0xE0 then some (0xA0, 0xBF, 2, 0)
  else if b = 0xED then some (0x80, 0x9F, 2, 0xD)
  else if 0xE1 ≤ b ∧ b ≤ 0xEF then some (0x80, 0xBF, 2, b - 0xE0)
  else if b = 0xF0 then some (0x90, 0xBF, 3, 0)
  else if 0xF1 ≤ b ∧ b ≤ 0xF3 then some (0x80, 0xBF, 3, b - 0xF0)
  else if b = 0xF4 then some (0x80, 0x8F, 3, 4)
  else none

def replacement : Char := Char.ofNat 0xFFFD

/-- Reads the bytes that follow a first byte, of which `more` are to come with the next one in
bounds. A byte that does not fit starts anew. -/
def following (low high more code : Nat) (bytes : List UInt8) : Char × List UInt8 :=
  match more, bytes with
  | 0, rest => (Char.ofNat code, rest)
  | _ + 1, [] => (replacement, [])
  | more + 1, b :: rest =>
    if low ≤ b.toNat ∧ b.toNat ≤ high then following 0x80 0xBF more (code * 64 + (b.toNat - 0x80)) rest
    else (replacement, b :: rest)

theorem following_length (low high more code : Nat) (bytes : List UInt8) :
    (following low high more code bytes).2.length ≤ bytes.length := by
  induction more generalizing low high code bytes with
  | zero => simp [following]
  | succ more ih =>
    cases bytes with
    | nil => simp [following]
    | cons b rest =>
      unfold following
      split
      · exact Nat.le_succ_of_le (ih _ _ _ _)
      · simp

/-- The characters of bytes. -/
def charsOfBytes (bytes : List UInt8) : List Char :=
  match bytes with
  | [] => []
  | b :: rest =>
    if b.toNat < 0x80 then Char.ofNat b.toNat :: charsOfBytes rest
    else
      match leadOf? b.toNat with
      | none => replacement :: charsOfBytes rest
      | some (low, high, more, code) =>
        (following low high more code rest).1 :: charsOfBytes (following low high more code rest).2
termination_by bytes.length
decreasing_by
  · simp
  · simp
  · exact Nat.lt_succ_of_le (following_length _ _ _ _ _)

/-- The characters of a text, read from its bytes. -/
def chars (s : String) : List Char := charsOfBytes s.toByteArray.data.toList

/-! ### The bytes of a text -/

section Lead
variable {b d : Nat}

theorem leadOf?_of_two (h : 0xC2 ≤ b ∧ b ≤ 0xDF) : leadOf? b = some (0x80, 0xBF, 1, b - 0xC0) := if_pos h

/-- A second byte fits, unless fewer bytes would do or the code point is a surrogate. -/
theorem leadOf?_of_three (hb : 0xE0 ≤ b ∧ b ≤ 0xEF) (hd : 0x80 ≤ d ∧ d ≤ 0xBF) (hleast : b = 0xE0 → 0xA0 ≤ d)
    (hchar : b = 0xED → d ≤ 0x9F) : ∃ low high, leadOf? b = some (low, high, 2, b - 0xE0) ∧ low ≤ d ∧ d ≤ high := by
  unfold leadOf?
  rw [if_neg (by omega)]
  split
  · rename_i hfirst
    exact ⟨_, _, by rw [hfirst], hleast hfirst, hd.2⟩
  · split
    · rename_i hfirst
      exact ⟨_, _, by rw [hfirst], hd.1, hchar hfirst⟩
    · rw [if_pos (by omega)]
      exact ⟨_, _, rfl, hd⟩

/-- A second byte fits, unless fewer bytes would do or the code point is too large. -/
theorem leadOf?_of_four (hb : 0xF0 ≤ b ∧ b ≤ 0xF4) (hd : 0x80 ≤ d ∧ d ≤ 0xBF) (hleast : b = 0xF0 → 0x90 ≤ d)
    (hmost : b = 0xF4 → d ≤ 0x8F) : ∃ low high, leadOf? b = some (low, high, 3, b - 0xF0) ∧ low ≤ d ∧ d ≤ high := by
  unfold leadOf?
  rw [if_neg (by omega), if_neg (by omega), if_neg (by omega), if_neg (by omega)]
  split
  · rename_i hfirst
    exact ⟨_, _, by rw [hfirst], hleast hfirst, hd.2⟩
  · split
    · exact ⟨_, _, rfl, hd⟩
    · rw [if_pos (by omega)]
      exact ⟨_, _, by rw [show b = 0xF4 by omega], hd.1, hmost (by omega)⟩

end Lead

section Character
variable {low high more code n : Nat}

/-- A byte in bounds is taken. -/
theorem following_ofNat (h : low ≤ n ∧ n ≤ high) (hn : n < 256) (rest : List UInt8) :
    following low high (more + 1) code (UInt8.ofNat n :: rest) = following 0x80 0xBF more (code * 64 + (n - 0x80)) rest := by
  show (if low ≤ (UInt8.ofNat n).toNat ∧ (UInt8.ofNat n).toNat ≤ high then _ else _) = _
  rw [UInt8.toNat_ofNat', Nat.mod_eq_of_lt hn, if_pos h]

theorem charsOfBytes_lead (h : leadOf? n = some (low, high, more, code)) (hfirst : 0x80 ≤ n) (hn : n < 256)
    {bytes rest : List UInt8} {c : Char} (hbytes : following low high more code bytes = (c, rest)) :
    charsOfBytes (UInt8.ofNat n :: bytes) = c :: charsOfBytes rest := by
  rw [charsOfBytes, UInt8.toNat_ofNat', Nat.mod_eq_of_lt hn, if_neg (Nat.not_lt_of_le hfirst), h]
  dsimp only
  rw [hbytes]

end Character

theorem charsOfBytes_encodeChar (c : Char) (rest : List UInt8) :
    charsOfBytes (String.utf8EncodeChar c ++ rest) = c :: charsOfBytes rest := by
  have hvalid : c.val.toNat < 0xD800 ∨ 0xDFFF < c.val.toNat ∧ c.val.toNat < 0x110000 := c.valid
  have hc : Char.ofNat c.val.toNat = c := Char.ofNat_toNat c
  unfold String.utf8EncodeChar
  generalize c.val.toNat = n at hvalid hc ⊢
  dsimp only
  -- One case for each number of bytes.
  split
  · have hn : (UInt8.ofNat n).toNat = n := by
      rw [UInt8.toNat_ofNat', Nat.mod_eq_of_lt (by omega)]
    rw [List.singleton_append, charsOfBytes, hn, if_pos (by omega), hc]
  split
  · rw [List.cons_append, List.singleton_append]
    refine charsOfBytes_lead (leadOf?_of_two (by omega)) (by omega) (by omega) ?_
    rw [following_ofNat (by omega) (by omega), following, ← hc]
    exact congrArg (fun m => (Char.ofNat m, rest)) (by omega)
  split
  · obtain ⟨low, high, hlead, hsecond⟩ :=
      leadOf?_of_three (b := n / 4096 % 16 + 224) (d := n / 64 % 64 + 128) (by omega) (by omega) (by omega) (by omega)
    rw [List.cons_append, List.cons_append, List.singleton_append]
    refine charsOfBytes_lead hlead (by omega) (by omega) ?_
    rw [following_ofNat hsecond (by omega), following_ofNat (by omega) (by omega), following, ← hc]
    exact congrArg (fun m => (Char.ofNat m, rest)) (by omega)
  · obtain ⟨low, high, hlead, hsecond⟩ :=
      leadOf?_of_four (b := n / 262144 % 8 + 240) (d := n / 4096 % 64 + 128) (by omega) (by omega) (by omega) (by omega)
    rw [List.cons_append, List.cons_append, List.cons_append, List.singleton_append]
    refine charsOfBytes_lead hlead (by omega) (by omega) ?_
    rw [following_ofNat hsecond (by omega), following_ofNat (by omega) (by omega), following_ofNat (by omega) (by omega),
      following, ← hc]
    exact congrArg (fun m => (Char.ofNat m, rest)) (by omega)

/-- **The characters read from the bytes of a text are those of the text.** -/
theorem chars_eq (s : String) : chars s = s.toList := by
  unfold chars
  rw [← String.utf8Encode_toList, List.utf8Encode, List.data_toByteArray]
  induction s.toList with
  | nil => rw [List.flatMap_nil, charsOfBytes]
  | cons c rest ih => rw [List.flatMap_cons, charsOfBytes_encodeChar, ih]

/-! ### Ranges -/

/-- The sequences of byte ranges that the code points from `low` to `high` are encoded in, of which `more` bytes follow
the first; that one begins with `mark`. -/
def byteRanges (mark : Nat) : (more : Nat) → (low high : Nat) → List (List (Nat × Nat))
  | 0, low, high => [[(mark + low, mark + high)]]
  | more + 1, low, high =>
    let block := 64 ^ (more + 1)
    let under (n low high : Nat) := (byteRanges 0x80 more low high).map ((mark + n, mark + n) :: ·)
    let (first, start) := (low / block, low % block)
    let (last, stop) := (high / block, high % block)
    if first = last then under first start stop
    else
      -- The blocks at both ends may be there in part only; those between them are one sequence.
      let (whole, upTo) := (if start = 0 then first else first + 1, if stop = block - 1 then last + 1 else last)
      (if start = 0 then [] else under first start (block - 1)) ++
        (if whole < upTo then [(mark + whole, mark + upTo - 1) :: List.replicate (more + 1) (0x80, 0xBF)] else []) ++
        (if stop = block - 1 then [] else under last 0 stop)

/-- The same for all code points of a range that are characters. -/
def sequences (low high : Nat) : List (List (Nat × Nat)) :=
  [(0, 0x7F, 0, 0), (0x80, 0x7FF, 1, 0xC0), (0x800, 0xD7FF, 2, 0xE0), (0xE000, 0xFFFF, 2, 0xE0),
    (0x10000, 0x10FFFF, 3, 0xF0)].flatMap fun (first, last, more, mark) =>
      if max low first ≤ min high last then byteRanges mark more (max low first) (min high last) else []

end Bitpress.Text
