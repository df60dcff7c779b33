/-!
Short keys for long texts: SipHash with one round for each word of the text and
three at the end, under the key zero. The key is written as sixteen hexadecimal
digits.
-/

namespace Bitpress.Text

structure SipHash where
  v0 : UInt64 := 0x736f6d6570736575
  v1 : UInt64 := 0x646f72616e646f6d
  v2 : UInt64 := 0x6c7967656e657261
  v3 : UInt64 := 0x7465646279746573

namespace SipHash

def rotate (x : UInt64) (n : UInt64) : UInt64 := (x <<< n) ||| (x >>> (64 - n))

def round (s : SipHash) : SipHash :=
  let v0 := s.v0 + s.v1
  let v1 := rotate s.v1 13 ^^^ v0
  let v0 := rotate v0 32
  let v2 := s.v2 + s.v3
  let v3 := rotate s.v3 16 ^^^ v2
  let v0 := v0 + v3
  let v3 := rotate v3 21 ^^^ v0
  let v2 := v2 + v1
  let v1 := rotate v1 17 ^^^ v2
  ⟨v0, v1, rotate v2 32, v3⟩

def absorb (s : SipHash) (word : UInt64) : SipHash :=
  let mixed := round { s with v3 := s.v3 ^^^ word }
  { mixed with v0 := mixed.v0 ^^^ word }

/-- The word of up to eight bytes, the first one lowest. -/
def wordOf (bytes : List UInt8) : UInt64 := bytes.foldr (fun b acc => (acc <<< 8) ||| b.toUInt64) 0

/-- Whole words are absorbed as they come, and the bytes that are left with the length of all above them. -/
def absorbAll (length : UInt64) (s : SipHash) : List UInt8 → SipHash
  | a :: b :: c :: d :: e :: f :: g :: h :: rest => absorbAll length (absorb s (wordOf [a, b, c, d, e, f, g, h])) rest
  | left => absorb s ((length <<< 56) ||| wordOf left)

def finish (s : SipHash) : UInt64 :=
  let s := round (round (round { s with v2 := s.v2 ^^^ 0xff }))
  s.v0 ^^^ s.v1 ^^^ s.v2 ^^^ s.v3

def ofBytes (bytes : List UInt8) : UInt64 := finish (absorbAll (UInt64.ofNat bytes.length) {} bytes)

/-- The hash of a text, whose end is marked by a byte that no text has. -/
def ofText (s : String) : UInt64 := ofBytes (s.toUTF8.toList ++ [0xff])

def digits (hash : UInt64) : String :=
  let ds := Nat.toDigits 16 hash.toNat
  String.ofList (List.replicate (16 - ds.length) '0' ++ ds)

end SipHash

end Bitpress.Text
