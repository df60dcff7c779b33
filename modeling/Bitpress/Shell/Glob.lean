import Bitpress.Files

/-!
Patterns for texts and file names: a star stands for any text, a question mark for
any character, and brackets for one of several. Quoted characters stand for
themselves.
-/

namespace Bitpress.Shell

inductive Glob
  | any
  | one
  | set (negated : Bool) (ranges : List (Char × Char))
  | char (c : Char)
deriving DecidableEq, Inhabited

namespace Glob

/-- The ranges of a bracket, up to its closing bracket. A closing bracket at the beginning is a member. -/
def ranges? (acc : List (Char × Char)) (cs : List (Char × Bool)) :
    Option (List (Char × Char) × List (Char × Bool)) :=
  match cs with
  | [] => none
  | (']', _) :: rest => if acc = [] then ranges? [(']', ']')] rest else some (acc.reverse, rest)
  | (a, _) :: ('-', _) :: (b, _) :: rest =>
    if b = ']' then ranges? ((a, a) :: acc) (('-', false) :: (b, false) :: rest)
    else ranges? ((a, b) :: acc) rest
  | (a, _) :: rest => ranges? ((a, a) :: acc) rest
termination_by cs.length
decreasing_by all_goals simp_all; try omega

/-- The pattern of a text in which each character is marked as active or not. -/
def ofChars (cs : List (Char × Bool)) : List Glob :=
  let rec read (cs : List (Char × Bool)) (fuel : Nat) : List Glob :=
    match fuel, cs with
    | 0, _ | _, [] => []
    | fuel + 1, ('*', true) :: rest => any :: read rest fuel
    | fuel + 1, ('?', true) :: rest => one :: read rest fuel
    | fuel + 1, ('[', true) :: rest =>
      let (negated, inner) := match rest with
        | ('!', _) :: inner => (true, inner)
        | inner => (false, inner)
      match ranges? [] inner with
      | some (ranges, rest) => set negated ranges :: read rest fuel
      | none => char '[' :: read rest fuel
    | fuel + 1, (c, _) :: rest => char c :: read rest fuel
  read cs cs.length

def holdsOf (c : Char) : Glob → Bool
  | any | one => true
  | set negated ranges => (ranges.any fun r => r.1 ≤ c && c ≤ r.2) != negated
  | char d => c == d

/-- Whether a pattern stands for a whole text. -/
def isMatch : List Glob → List Char → Bool
  | [], cs => cs.isEmpty
  | any :: rest, cs => isMatch rest cs || (match cs with
    | [] => false
    | _ :: cs => isMatch (any :: rest) cs)
  | g :: rest, c :: cs => g.holdsOf c && isMatch rest cs
  | _ :: _, [] => false
termination_by gs cs => gs.length + cs.length
decreasing_by all_goals simp_all +arith

/-- The shortest or the longest beginning of a text that a pattern stands for, cut off. -/
def withoutStart (longest : Bool) (gs : List Glob) (cs : List Char) : List Char :=
  let lengths := List.range (cs.length + 1)
  match (if longest then lengths.reverse else lengths).find? fun n => isMatch gs (cs.take n) with
  | some n => cs.drop n
  | none => cs

/-- The shortest or the longest end of a text that a pattern stands for, cut off. -/
def withoutEnd (longest : Bool) (gs : List Glob) (cs : List Char) : List Char :=
  let lengths := List.range (cs.length + 1)
  match (if longest then lengths else lengths.reverse).find? fun n => isMatch gs (cs.drop n) with
  | some n => cs.take n
  | none => cs

/-- The names in a directory that a pattern stands for, in order; hidden ones have to be named as such. -/
def namesIn (files : FileTree) (directory : Location) (gs : List Glob) : List String :=
  match files.get directory with
  | .ok (.dir entries) =>
    let names := (entries.map Prod.fst).filter fun name =>
      isMatch gs name.toList && (name.toList.head? != some '.' || gs.head? == some (char '.'))
    names.mergeSort Text.inOrder
  | _ => []

end Glob

end Bitpress.Shell
