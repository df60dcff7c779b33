import Bitpress.Error
import Bitpress.Text.Basic

/-!
Override paths: keys joined by points, each followed by any number of places in
brackets, as in `queries.blocks[2].where.name`. Places count from one.
-/

namespace Bitpress

inductive Segment
  | key (k : String)
  /-- A place of a list, counted from one. -/
  | index (n : Nat)
deriving DecidableEq, Inhabited

def Segment.text : Segment → String
  | .key k => k
  | .index n => "[" ++ toString n ++ "]"

/-- A path with the text that spelled it. -/
structure OverridePath where
  raw : String
  segments : List Segment
deriving DecidableEq, Inhabited

namespace OverridePath

/-- The ways in which a text is no path. -/
inductive Malformed
  | empty
  | noKey
  | unopened
  | afterIndex
  | unclosed
  | notAnIndex
  | zeroIndex
deriving DecidableEq

def Malformed.message : Malformed → String
  | empty => "path is empty"
  | noKey => "every segment must start with a key"
  | unopened => "unbalanced `]`"
  | afterIndex => "unexpected text after index"
  | unclosed => "unbalanced `[`"
  | notAnIndex => "index must be a positive integer"
  | zeroIndex => "indices are 1-based"

/-- The greatest place that can be written. -/
def greatestIndex : Nat := 0xFFFFFFFFFFFFFFFF

/-- Reads decimal digits, of which there is at least one. -/
def digits? (cs : List Char) : Option Nat :=
  if cs = [] ∨ cs.any (fun c => !c.isDigit) then none
  else some (cs.foldl (fun n c => n * 10 + (c.toNat - '0'.toNat)) 0)

/-- Reads a place: digits with an optional plus sign and white space around them. -/
def index? (cs : List Char) : Option Nat :=
  let ds :=
    match Text.trimChars cs with
    | '+' :: ds => ds
    | ds => ds
  match digits? ds with
  | some n => if n ≤ greatestIndex then some n else none
  | none => none

/-- Reads the bracketed places after a key. -/
def places (cs : List Char) : Except Malformed (List Segment) :=
  match cs with
  | [] => .ok []
  | '[' :: inner =>
    match _h : Text.cutAt? [']'] inner with
    | none => .error .unclosed
    | some (written, rest) =>
      match index? written with
      | none => .error .notAnIndex
      | some 0 => .error .zeroIndex
      | some n => (places rest).map (.index n :: ·)
  | _ :: _ => .error .afterIndex
termination_by cs.length
decreasing_by
  have := Text.cutAt?_eq_some _h
  subst this
  simp only [List.length_cons, List.length_append]
  omega

/-- Reads one part of a path: a key and the places after it. -/
def part (cs : List Char) : Except Malformed (List Segment) :=
  let key := cs.takeWhile (· != '[')
  if key = [] then .error .noKey
  else if ']' ∈ key then .error .unopened
  else (places (cs.dropWhile (· != '['))).map (.key (String.ofList key) :: ·)

def segmentsOf (cs : List Char) : Except Malformed (List Segment) :=
  if cs.all Text.isBlank then .error .empty
  else ((Text.splitChars '.' cs).mapM part).map List.flatten

/-- Reads a path. -/
def parse (raw : String) : Outcome OverridePath :=
  match segmentsOf raw.toList with
  | .ok segments => .ok ⟨raw, segments⟩
  | .error reason => .error (.overridePath raw reason.message)

/-- The text of a list of segments: points stand before keys, except before the first one. -/
def print : List Segment → String
  | [] => ""
  | s :: rest =>
    s.text ++ (match rest with
      | .key _ :: _ => "."
      | _ => "") ++ print rest

/-- The parts of a spec that a path can name. -/
def specParts : List String := ["queries", "context", "compose", "template", "dest"]

/-- The path within a spec: one that names no part of it lies in its queries. -/
def withinSpec (p : OverridePath) : OverridePath :=
  match p.segments with
  | .key k :: _ =>
    if k ∈ specParts then p else { p with segments := .key "queries" :: p.segments }
  | _ => { p with segments := .key "queries" :: p.segments }

end OverridePath

end Bitpress
