import Bitpress.Pattern.CharSet

/-!
Patterns and what they match. Positions of a text are counted from its beginning;
`ends` gives the positions at which a match from one position can end, and
`matchesSomewhere` asks for a match from any position.

A pattern may not be nested too deeply, and the automaton for it may not grow too large
(`fits`).
-/

namespace Bitpress

/-- How the characters on both sides of a position must belong to words. -/
inductive WordEdge
  | boundary
  | inside
  | start
  | stop
  | startHalf
  | stopHalf
deriving DecidableEq, Inhabited

/-- Conditions on a position that take up no characters. -/
inductive Assertion
  | textStart
  | textEnd
  /-- A line feed ends a line; with `crlf` also a carriage return, or both of them. -/
  | lineStart (crlf : Bool)
  | lineEnd (crlf : Bool)
  | word (e : WordEdge) (ascii : Bool)
deriving DecidableEq, Inhabited

inductive Pattern
  | empty
  | chars (s : CharSet)
  | assertion (a : Assertion)
  | group (captures : Bool) (p : Pattern)
  | seq (p q : Pattern)
  | alt (p q : Pattern)
  /-- From `least` to `most` times, or any number from `least` on. -/
  | times (p : Pattern) (least : Nat) (most : Option Nat)
deriving Inhabited

namespace Pattern

def wordAt (ascii : Bool) (text : Array Char) (i : Nat) : Bool :=
  (text[i]?).any (if ascii then CharSet.isWordAscii else CharSet.isWord)

def wordBefore (ascii : Bool) (text : Array Char) (i : Nat) : Bool := i != 0 && wordAt ascii text (i - 1)

def WordEdge.holds (before after : Bool) : WordEdge → Bool
  | .boundary => before != after
  | .inside => before == after
  | .start => !before && after
  | .stop => before && !after
  | .startHalf => !before
  | .stopHalf => !after

def holds (text : Array Char) (i : Nat) : Assertion → Bool
  | .textStart => i == 0
  | .textEnd => i == text.size
  | .lineStart crlf =>
    i == 0 || text[i - 1]? == some '\n' || (crlf && text[i - 1]? == some '\r' && text[i]? != some '\n')
  | .lineEnd crlf =>
    let afterReturn := i != 0 && text[i - 1]? == some '\r'
    i == text.size || (crlf && text[i]? == some '\r') || (text[i]? == some '\n' && !(crlf && afterReturn))
  | .word e ascii => WordEdge.holds (wordBefore ascii text i) (wordAt ascii text i) e

def union (xs ys : List Nat) : List Nat := xs ++ ys.filter fun y => !xs.contains y

/-- The positions of all `ends` of a set of positions. -/
def spread (step : Nat → List Nat) (xs : List Nat) : List Nat :=
  xs.foldl (fun acc x => union acc (step x)) []

/-- The positions after any number of steps; each round reaches a new one, so `fuel` rounds are enough
when there are no more positions than that. -/
def closure (step : Nat → List Nat) (seen front : List Nat) : (fuel : Nat) → List Nat
  | 0 => seen
  | fuel + 1 =>
    let next := (spread step front).filter fun y => !seen.contains y
    if next.isEmpty then seen else closure step (seen ++ next) next fuel

/-- The positions after exactly `n` steps. -/
def exactly (step : Nat → List Nat) (xs : List Nat) : (n : Nat) → List Nat
  | 0 => xs
  | n + 1 => if xs.isEmpty then [] else exactly step (spread step xs) n

/-- The positions after at most `n` steps. -/
def atMost (step : Nat → List Nat) (seen front : List Nat) : (n : Nat) → List Nat
  | 0 => seen
  | n + 1 =>
    let next := (spread step front).filter fun y => !seen.contains y
    if next.isEmpty then seen else atMost step (seen ++ next) next n

/-- The positions at which a match from `i` can end. -/
def ends (text : Array Char) : Pattern → Nat → List Nat
  | .empty, i => [i]
  | .chars s, i =>
    match text[i]? with
    | some c => if s.contains c then [i + 1] else []
    | none => []
  | .assertion a, i => if holds text i a then [i] else []
  | .group _ p, i => ends text p i
  | .seq p q, i => spread (ends text q) (ends text p i)
  | .alt p q, i => union (ends text p i) (ends text q i)
  | .times p least most, i =>
    let start := exactly (ends text p) [i] least
    match most with
    | none => closure (ends text p) start start (text.size + 1)
    | some n => atMost (ends text p) start start (n - least)

/-- Whether some part of the text matches. -/
def matchesSomewhere (p : Pattern) (s : String) : Bool :=
  let text := s.toList.toArray
  (List.range (text.size + 1)).any fun i => !(p.ends text i).isEmpty

/-! ### Limits -/

/-- How deep a pattern is nested: each group, repetition, sequence and list of alternatives is a level. -/
def depth : Pattern → Nat
  | .empty => 0
  | .chars s => s.depth
  | .assertion _ => 0
  | .group _ p => p.depth + 1
  | .seq p q => max (p.depth + if p matches .seq .. then 0 else 1) (q.depth + 1)
  | .alt p q => max (p.depth + 1) (q.depth + if q matches .alt .. then 0 else 1)
  | .times p _ _ => p.depth + 1

def nestLimit : Nat := 250

/-- Every match is empty. -/
def takesNothing : Pattern → Bool
  | .empty => true
  | .chars _ => false
  | .assertion _ => true
  | .group _ p => p.takesNothing
  | .seq p q => p.takesNothing && q.takesNothing
  | .alt p q => p.takesNothing && q.takesNothing
  | .times p _ most => p.takesNothing || most == some 0

/-- The bytes for a repetition of what takes `once`: a copy for each time, and those that may be left out have a way
around them. -/
def timesSize (once least : Nat) : (most : Option Nat) → Nat
  | none => max least 1 * once + 40
  | some most =>
    if most = 0 then 32 else if most = least then least * once else least * once + 32 + (most - least) * (once + 40)

/-- The bytes that the states of the automaton take: mostly 32 each. -/
def size : Pattern → Nat
  | .empty => 32
  | .chars s => s.size
  | .assertion _ => 32
  | .group captures p => p.size + if captures then 64 else 0
  | .seq p q => p.size + q.size
  | .alt p q => p.size + q.size + if q matches .alt .. then 4 else 72
  | .times p least most =>
    -- What matches nothing else than the empty text is repeated once at most.
    if p.takesNothing then timesSize p.size (min least 1) (some (min (most.getD 1) 1)) else timesSize p.size least most

/-- What every automaton takes besides. -/
def frameSize : Nat := 104

/-- Ten mebibytes. -/
def sizeLimit : Nat := 10 <<< 20

def fits (p : Pattern) : Bool := p.depth ≤ nestLimit && p.size + frameSize ≤ sizeLimit

end Pattern

end Bitpress
