/-!
Identities of elements. An identity is a number of 128 bits, written as 32
hexadecimal digits in five groups. Fresh identities are numbered through, so two
of them are never the same.
-/

namespace Bitpress

structure ElementId where
  value : Nat
deriving DecidableEq, Inhabited

namespace ElementId

/-- The identity of nothing. -/
def nil : ElementId := ⟨0⟩

def firstFresh : Nat := 0x5f0c2b718d3e4a96b3d7c1000000000d

/-- The `n`-th fresh identity. -/
def fresh (n : Nat) : ElementId := ⟨firstFresh + n⟩

theorem fresh_injective {m n : Nat} (h : fresh m = fresh n) : m = n := by
  simp only [fresh, ElementId.mk.injEq] at h
  omega

def digits (id : ElementId) : List Char :=
  let ds := Nat.toDigits 16 id.value
  List.replicate (32 - ds.length) '0' ++ ds

def text (id : ElementId) : String :=
  let ds := id.digits
  String.ofList (ds.take 8 ++ ['-'] ++ (ds.drop 8).take 4 ++ ['-'] ++ (ds.drop 12).take 4 ++ ['-'] ++
    (ds.drop 16).take 4 ++ ['-'] ++ ds.drop 20)

def hexValue? (c : Char) : Option Nat :=
  if '0' ≤ c ∧ c ≤ '9' then some (c.toNat - '0'.toNat)
  else if 'a' ≤ c ∧ c ≤ 'f' then some (c.toNat - 'a'.toNat + 10)
  else if 'A' ≤ c ∧ c ≤ 'F' then some (c.toNat - 'A'.toNat + 10)
  else none

def ofDigits? (cs : List Char) : Option ElementId :=
  if cs.length = 32 then
    (cs.foldlM (fun n c => (hexValue? c).map (n * 16 + ·)) 0).map ElementId.mk
  else none

/-- Reads digits in groups of 8, 4, 4, 4 and 12 with hyphens between them. -/
def ofGroups? (cs : List Char) : Option ElementId :=
  match cs.splitOn '-' with
  | [a, b, c, d, e] =>
    if a.length = 8 ∧ b.length = 4 ∧ c.length = 4 ∧ d.length = 4 ∧ e.length = 12 then
      ofDigits? (a ++ b ++ c ++ d ++ e)
    else none
  | _ => none

/-- Reads an identity: plain digits, groups, groups in braces, or groups after `urn:uuid:`. -/
def read? (s : String) : Option ElementId :=
  let cs := s.toList
  if cs.length = 32 then ofDigits? cs
  else if cs.length = 36 then ofGroups? cs
  else if cs.length = 38 then
    if cs.head? = some '\x7b' ∧ cs.getLast? = some '\x7d' then ofGroups? (cs.drop 1).dropLast else none
  else if cs.length = 45 then
    if cs.take 9 = "urn:uuid:".toList then ofGroups? (cs.drop 9) else none
  else none

end ElementId

end Bitpress
