/-!
Random words, and the choices that are made with them.

The words that belong to a seed are the output of the ChaCha cipher with twelve
rounds, its key spread from the seed. From a supply of words come numbers below a
bound, shuffled lists and samples of positions.
-/

namespace Bitpress

/-! ### Words -/

/-- An endless supply of random words, by position. -/
abbrev RandomSource := Nat → UInt32

namespace ChaCha

def word (s : Array UInt32) (i : Nat) : UInt32 := s.getD i 0

def rotate (x : UInt32) (n : UInt32) : UInt32 := (x <<< n) ||| (x >>> (32 - n))

/-- Mixes four words of a state. -/
def quarter (a b c d : Nat) (s : Array UInt32) : Array UInt32 :=
  let wa := word s a + word s b
  let wd := rotate (word s d ^^^ wa) 16
  let wc := word s c + wd
  let wb := rotate (word s b ^^^ wc) 12
  let wa := wa + wb
  let wd := rotate (wd ^^^ wa) 8
  let wc := wc + wd
  let wb := rotate (wb ^^^ wc) 7
  (((s.setIfInBounds a wa).setIfInBounds b wb).setIfInBounds c wc).setIfInBounds d wd

/-- A round on the columns and a round on the diagonals. -/
def doubleRound (s : Array UInt32) : Array UInt32 :=
  let s := quarter 0 4 8 12 s
  let s := quarter 1 5 9 13 s
  let s := quarter 2 6 10 14 s
  let s := quarter 3 7 11 15 s
  let s := quarter 0 5 10 15 s
  let s := quarter 1 6 11 12 s
  let s := quarter 2 7 8 13 s
  quarter 3 4 9 14 s

def constants : List UInt32 := [0x61707865, 0x3320646e, 0x79622d32, 0x6b206574]

def initial (key : List UInt32) (counter : Nat) : Array UInt32 :=
  (constants ++ key ++ [UInt32.ofNat counter, UInt32.ofNat (counter / 0x100000000), 0, 0]).toArray

/-- The sixteen words of a block. -/
def block (key : List UInt32) (counter : Nat) : Array UInt32 :=
  let start := initial key counter
  let mixed := (List.range 6).foldl (fun s _ => doubleRound s) start
  mixed.zipWith (· + ·) start

/-- The next state of the generator that spreads a seed. -/
def spreadState (state : UInt64) : UInt64 := state * 6364136223846793005 + 11634580027462260723

/-- The key word of a state. -/
def keyWord (state : UInt64) : UInt32 :=
  let x := (((state >>> 18) ^^^ state) >>> 27).toUInt32
  let n := (state >>> 59).toUInt32
  (x >>> n) ||| (x <<< ((32 - n) &&& 31))

def keyWords (state : UInt64) : (count : Nat) → List UInt32
  | 0 => []
  | count + 1 =>
    let next := spreadState state
    keyWord next :: keyWords next count

/-- The words of a seed. -/
def seeded (seed : Nat) : RandomSource :=
  let key := keyWords (UInt64.ofNat seed) 8
  fun i => (block key (i / 16)).getD (i % 16) 0

end ChaCha

/-! ### Choices -/

/-- A supply of random words and how many of them have been used. -/
structure Draws where
  source : RandomSource
  used : Nat := 0

/-- A choice that uses up random words. -/
abbrev Draw (α : Type) := StateM Draws α

namespace Draw

def next : Draw Nat := do
  let d ← get
  set { d with used := d.used + 1 }
  return (d.source d.used).toNat

/-- How many words there are. -/
def wordCount : Nat := 0x100000000

/-- A number below `bound`: the high half of a product, carried on by a second word when the low half
is too close to the end. -/
def below (bound : Nat) : Draw Nat := do
  let product := (← next) * bound
  let high := product / wordCount
  let low := product % wordCount
  if (wordCount - bound) % wordCount < low then
    let carry := (← next) * bound / wordCount
    return if wordCount ≤ low + carry then high + 1 else high
  else return high

/-- The list with two of its positions swapped. -/
def swap (xs : List α) (i j : Nat) : List α :=
  match xs[i]?, xs[j]? with
  | some a, some b => (xs.set i b).set j a
  | _, _ => xs

/-- The largest product `m * (m + 1) * …` below `2 ^ 32` that continues a given one, and how many
factors it has. -/
def largestProduct (product factor count : Nat) : (fuel : Nat) → Nat × Nat
  | 0 => (product, count)
  | fuel + 1 =>
    if product * factor < wordCount then largestProduct (product * factor) (factor + 1) (count + 1) fuel
    else (product, count)

/-- What is left of a drawn number that several positions share. -/
structure Chunk where
  value : Nat := 0
  remaining : Nat := 1

/-- A number below `m`, taken from a chunk. -/
def fromChunk (m : Nat) (chunk : Chunk) : Draw (Nat × Chunk) := do
  let chunk ←
    if chunk.remaining = 0 then do
      let (bound, count) := largestProduct m (m + 1) 1 32
      let value ← below bound
      pure (Chunk.mk value (count - 1))
    else pure { chunk with remaining := chunk.remaining - 1 }
  if chunk.remaining = 0 then return (chunk.value, chunk)
  else return (chunk.value % m, { chunk with value := chunk.value / m })

/-- Swaps each of the positions from `i` on with one that is not after it. -/
def shuffleFrom (xs : List α) (i : Nat) (chunk : Chunk) : (count : Nat) → Draw (List α)
  | 0 => return xs
  | count + 1 => do
    let (j, chunk) ← fromChunk (i + 1) chunk
    shuffleFrom (swap xs i j) (i + 1) chunk count

def shuffle (xs : List α) : Draw (List α) :=
  if xs.length < 2 then return xs else shuffleFrom xs 0 {} xs.length

/-- Swaps each of the first positions with one that is not before it. -/
def pickInPlace (positions : List Nat) (i : Nat) : (count : Nat) → Draw (List Nat)
  | 0 => return positions
  | count + 1 => do
    let j ← below (positions.length - i)
    pickInPlace (swap positions i (i + j)) (i + 1) count

/-- Picks a new position for each of the ends `j`, `j + 1`, …: one that was picked before gives its
place to the end. -/
def pickByEnds (picked : List Nat) (j : Nat) : (count : Nat) → Draw (List Nat)
  | 0 => return picked
  | count + 1 => do
    let t ← below (j + 1)
    let picked := picked.map fun p => if p = t then j else p
    pickByEnds (picked ++ [t]) (j + 1) count

/-- How many words are tried for one position. -/
def tries : Nat := 1 <<< 64

/-- A position that was not picked before, for the first word that leads to one. Words whose product ends too early
are passed over, so that no position is likelier than another. If no word leads to a position, it is the first one. -/
def freshPosition (length : Nat) (picked : List Nat) : (tries : Nat) → Draw Nat
  | 0 => return ((List.range length).find? fun p => !picked.contains p).getD 0
  | tries + 1 => do
    let product := (← next) * length
    let position := product / wordCount
    if product % wordCount < (wordCount - length) % length || picked.contains position then
      freshPosition length picked tries
    else return position

/-- Picks positions one after another. -/
def pickFresh (length : Nat) (picked : List Nat) : (count : Nat) → Draw (List Nat)
  | 0 => return picked
  | count + 1 => do
    let position ← freshPosition length picked tries
    pickFresh length (picked ++ [position]) count

/-- The nearest number of single precision, which has 24 bits; of two, the one that ends with an even bit. -/
def single (n : Nat) : Nat :=
  let unit := 1 <<< (n.log2 - 23)
  let whole := n / unit
  let part := n % unit
  if 2 * part < unit || (2 * part == unit && whole % 2 == 0) then whole * unit else (whole + 1) * unit

/-- The constants that samples are weighed with have so many bits behind the point. -/
def fractionBits : Nat := 26

/-- Whether all positions of a list are listed for a sample, as it is decided in single precision. -/
def listsPositions (length amount : Nat) : Bool :=
  if amount < 163 then
    -- Ten and 1.6, or 70 ninths and 8 forty-fifths.
    let (base, slope) := if length < 500000 then (671088640, 107374184) else (521954176, 11930465)
    11 < amount && single length <<< fractionBits < single (single (base + single (slope * amount)) * amount)
  else
    -- 270, or 330 ninths.
    let factor := if length < 500000 then 18119393280 else 2460658432
    single length <<< fractionBits < single (factor * single amount)

/-- Distinct positions of a list of length `length`. -/
def sample (length amount : Nat) : Draw (List Nat) :=
  if listsPositions length amount then do
    let positions ← pickInPlace (List.range length) 0 amount
    return positions.take amount
  else if amount < 163 then pickByEnds [] (length - amount) amount
  else pickFresh length [] amount

end Draw

end Bitpress
