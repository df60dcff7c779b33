/-!
Texts: their order by code point, which is also the order of their UTF-8 bytes, and
the white space in them, the characters with the Unicode property `White_Space`.
-/

namespace Bitpress.Text

/-! ### Order -/

def compareChars : List Char → List Char → Ordering
  | [], [] => .eq
  | [], _ :: _ => .lt
  | _ :: _, [] => .gt
  | a :: as, b :: bs => (compare a.toNat b.toNat).then (compareChars as bs)

def order (a b : String) : Ordering := compareChars a.toList b.toList

/-- `a` may stand before `b`: it comes earlier or is the same text. -/
def inOrder (a b : String) : Bool := order a b != .gt

/-! ### White space -/

/-- The property `White_Space`. -/
def isBlank (c : Char) : Bool :=
  let n := c.toNat
  (9 ≤ n && n ≤ 13) || n == 0x20 || n == 0x85 || n == 0xA0 || n == 0x1680 ||
    (0x2000 ≤ n && n ≤ 0x200A) || n == 0x2028 || n == 0x2029 || n == 0x202F || n == 0x205F ||
    n == 0x3000

def skipBlanks (cs : List Char) : List Char := cs.dropWhile isBlank

/-- The characters without the blanks at their end. -/
def dropBlanksAtEnd (cs : List Char) : List Char := (cs.reverse.dropWhile isBlank).reverse

def trimChars (cs : List Char) : List Char := dropBlanksAtEnd (skipBlanks cs)

def trim (s : String) : String := String.ofList (trimChars s.toList)

def trimEnd (s : String) : String := String.ofList (dropBlanksAtEnd s.toList)

/-- Nothing but white space. -/
def blankText (s : String) : Bool := s.toList.all isBlank

end Bitpress.Text
