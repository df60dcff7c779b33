import Bitpress.Template.Test
import Bitpress.Template.Token

/-!
Filters, which follow a bar. A filter is a function of the value before the bar
and its own arguments. Filters that work on all items of a list by the name of a
test or of another filter are the last ones here.
-/

namespace Bitpress.Template

/-- Filters by name. -/
abbrev FilterSet := Table (List Value → Except TemplateFault Value)

namespace Filter

open Value (Reply refuse text)

/-- What going through a value yields; what cannot be gone through is refused. -/
def items (v : Value) : Reply (List Value) :=
  match v.items? with
  | some vs => .ok vs
  | none => refuse

/-! ### Texts -/

def isPunctuation (c : Char) : Bool := 33 ≤ c.toNat && c.toNat ≤ 126 && !c.isAlphanum

/-- Capital letters at the beginnings of words. -/
def titled (start : Bool) : List Char → List Char
  | [] => []
  | c :: rest =>
    if isPunctuation c || Text.isBlank c then c :: titled true rest
    else if start then Text.upperChar c ++ titled false rest
    else Text.lowerChar c ++ titled false rest

def capitalized (s : String) : String :=
  match s.toList with
  | [] => ""
  | c :: rest => String.ofList (Text.upperChar c) ++ Text.lower (String.ofList rest)

/-- Replaces each part; an empty part stands before every character and at the end. -/
def replaced (s part replacement : String) : String :=
  if part = "" then
    String.join (s.toList.map fun c => replacement ++ String.singleton c) ++ replacement
  else Text.replace s part replacement

def trimmed (s : String) (chars : Option String) : String :=
  let drop (p : Char → Bool) (cs : List Char) : List Char := ((cs.dropWhile p).reverse.dropWhile p).reverse
  match chars with
  | none => Text.trim s
  | some set => String.ofList (drop set.toList.contains s.toList)

/-- The texts of items in a row. The joiner stands only behind something. -/
def joined (joiner : String) (vs : List Value) : String :=
  vs.foldl (fun acc v => (if acc = "" then acc else acc ++ joiner) ++ v.shown) ""

/-- The pieces between separators; after `limit` cuts the rest is one piece. -/
def cutPieces (fuel : Nat) (separator : List Char) (limit : Option Nat) (cs : List Char) :
    List (List Char) :=
  match fuel, limit with
  | 0, _ | _, some 0 => [cs]
  | fuel + 1, limit =>
    match Text.cutAt? separator cs with
    | none => [cs]
    | some (before, rest) => before :: cutPieces fuel separator (limit.map (· - 1)) rest

/-- The words of a text; after `limit` cuts at single blanks the rest is one piece. -/
def cutWords (limit : Option Nat) (cs : List Char) : List (List Char) :=
  match limit, cs with
  | some 0, cs => [cs]
  | _, [] => [[]]
  | limit, c :: rest =>
    if Text.isBlank c then [] :: cutWords (limit.map (· - 1)) rest
    else
      match cutWords limit rest with
      | [] => [[c]]
      | piece :: pieces => (c :: piece) :: pieces

def pieces (s : String) (separator : Option String) (limit : Option Int) : List String :=
  let limit := limit.bind fun n => if 0 ≤ n then some n.toNat else none
  let cs := s.toList
  match separator with
  | none => ((cutWords limit cs).filter fun p => !p.isEmpty).map String.ofList
  | some "" => [""] ++ cs.map String.singleton ++ [""]
  | some t => (cutPieces cs.length t.toList limit cs).map String.ofList

def withoutBreakAtEnd (s : String) : String :=
  let s := (Text.withoutEnd? "\n" s).getD s
  (Text.withoutEnd? "\r" s).getD s

/-- The lines of a text moved to the right. -/
def indented (s : String) (width : Nat) (first blank : Bool) : String :=
  let margin := String.ofList (List.replicate width ' ')
  let moved (line : String) : String :=
    if line = "" then (if blank then margin else "") else margin ++ line
  let lines := match Text.split '\n' (withoutBreakAtEnd s) with
    | [] => []
    | line :: rest => (if first then moved line else line) :: rest.map moved
  withoutBreakAtEnd (String.join (lines.map (· ++ "\n")))

/-! ### Numbers -/

/-- Rounds a half away from zero. -/
def nearest (x : Binary64) : Binary64 :=
  let size := x.abs
  let low := size.floor
  let rounded := if (size.sub low).less ⟨0x3FE0000000000000⟩ then low else low.add (Binary64.ofInt 1)
  if x.isNegative then rounded.neg else rounded

def rounded (x : Binary64) (places : Int) : Binary64 :=
  let scale :=
    if 0 ≤ places then Binary64.ofRatio false (Nat.pow 10 places.toNat) 1
    else Binary64.ofRatio false 1 (Nat.pow 10 (-places).toNat)
  (nearest (scale.mul x)).div scale

/-- The number that a text stands for, with a point or a power of ten. -/
def realOf? (s : String) : Option Binary64 :=
  let unsigned (cs : List Char) : Option Binary64 :=
    let word := String.ofList (cs.map Char.toLower)
    if word = "inf" ∨ word = "infinity" then some (.infinity false)
    else if word = "nan" then some .nan
    else if cs.contains '_' then none
    else
      match Token.realToken cs with
      | .real x => some x
      | _ => none
  match s.toList with
  | '-' :: cs => (unsigned cs).map Binary64.neg
  | '+' :: cs => unsigned cs
  | cs => unsigned cs

def wholeOf? (s : String) : Option Int :=
  let digits (cs : List Char) : Option Int := (Token.digitValue 10 cs).map Int.ofNat
  match s.toList with
  | '-' :: cs => (digits cs).map (- ·)
  | '+' :: cs => digits cs
  | cs => digits cs

/-- A number cut to whole units, within 128 bits. -/
def cutToWhole (x : Binary64) : Int :=
  if x.isNaN then 0
  else if x.isInfinite then (if x.isNegative then Value.leastWhole else Value.greatestWhole)
  else max Value.leastWhole (min Value.greatestWhole x.truncated)

def toWhole : Value → Reply Value
  | .undefined | .none => .ok (.int 0)
  | .bool b => .ok (.int (if b then 1 else 0))
  | .int n => .ok (.int n)
  | .real x => .ok (.int (cutToWhole x))
  | .str s _ =>
    match wholeOf? s with
    | some n => Value.bounded n
    | none =>
      match realOf? s with
      | some x => .ok (.int (cutToWhole x))
      | none => refuse
  | _ => refuse

def toReal : Value → Reply Value
  | .undefined | .none => .ok (.real .zero)
  | .str s _ =>
    match realOf? s with
    | some x => .ok (.real x)
    | none => refuse
  | v =>
    match v.real? true with
    | some x => .ok (.real x)
    | none => refuse

/-- A number with fraction brought to a whole one of 64 bits. -/
def toSigned (x : Binary64) : Int :=
  max Number.leastInt (min Number.greatestSigned (cutToWhole x))

def absolute : Value → Reply Value
  | .int n => Value.bounded n.natAbs
  | .real x => .ok (.real x.abs)
  | _ => refuse

/-! ### Lists -/

/-- The order for sorting: texts are compared without case if that is asked for. -/
def sortOrder (exact : Bool) (a b : Value) : Ordering :=
  match a, b with
  | .str s _, .str t _ =>
    if exact then Text.order s t
    else Text.compareChars (s.toList.map Char.toLower) (t.toList.map Char.toLower)
  | a, b => Value.comparison a b

/-- The order of two values by the attributes that a path leads to. -/
def attributeOrder (exact : Bool) (path : Option String) (a b : Value) : Ordering :=
  match path with
  | none => sortOrder exact a b
  | some path =>
    match a.memberAlong path, b.memberAlong path with
    | .ok a, .ok b => sortOrder exact a b
    | _, _ => .eq

def sorted (order : Value → Value → Ordering) (vs : List Value) : List Value :=
  vs.mergeSort fun a b => order a b != .gt

def least (vs : List Value) : Value :=
  match vs with
  | [] => .undefined
  | v :: rest => rest.foldl (fun m v => if Value.comparison v m == .lt then v else m) v

/-- The greatest value; of equal ones the last. -/
def greatest (vs : List Value) : Value :=
  match vs with
  | [] => .undefined
  | v :: rest => rest.foldl (fun m v => if Value.comparison v m == .lt then m else v) v

/-- Lists of `n` items each; the last one may be filled up. -/
def batches (fuel n : Nat) (filler : Option Value) (vs : List Value) : List Value :=
  match fuel with
  | 0 => []
  | fuel + 1 =>
    if vs.isEmpty then []
    else
      let head := vs.take n
      let filled := match filler with
        | some f => head ++ List.replicate (n - head.length) f
        | none => head
      .list filled :: batches fuel n filler (vs.drop n)

/-- `n` lists of nearly equal length; shorter ones may be filled up. -/
def slices (n : Nat) (filler : Option Value) (vs : List Value) : List Value :=
  let short := vs.length / n
  let long := vs.length % n
  (List.range n).map fun i =>
    let start := i * short + min i long
    let part := (vs.drop start).take (short + if i < long then 1 else 0)
    match filler with
    | some f => .list (if i < long then part else part ++ [f])
    | none => .list part

def total (vs : List Value) : Reply Value :=
  vs.foldlM (fun acc v =>
    if v.isUndefined then .ok acc else if v.isNumber then acc.add v else refuse) (.int 0)

/-- The items whose keys were not seen before. -/
def distinct (key : Value → Value) (seen : List Value) : List Value → List Value
  | [] => []
  | v :: rest =>
    if seen.any fun k => Value.comparison (key v) k == .eq then distinct key seen rest
    else v :: distinct key (key v :: seen) rest

/-- Neighbours with equal keys, together. -/
def grouped (same : Value → Value → Bool) : List (Value × Value) → List (Value × List Value)
  | [] => []
  | (k, v) :: rest =>
    match grouped same rest with
    | [] => [(k, [v])]
    | (j, vs) :: groups => if same k j then (k, v :: vs) :: groups else (k, [v]) :: (j, vs) :: groups

/-- The first items of all lists, then the second ones, to the end of the shortest list. -/
def transposed (lists : List (List Value)) : List Value :=
  match (lists.map List.length).min? with
  | none => []
  | some n => (List.range n).map fun i => .list (lists.filterMap fun l => l[i]?)

def reversed : Value → Reply Value
  | .undefined => .ok .undefined
  | .none => .ok .none
  | .str s _ => .ok (text (String.ofList s.toList.reverse))
  | v => do
    match v.kind with
    | .sequence | .stream | .mapping => return .stream (← items v).reverse true
    | _ => refuse

def lastOf : Value → Reply Value
  | .str s _ => .ok ((s.toList.getLast?.map fun c => text (String.singleton c)).getD .undefined)
  | v => if v.isListLike then do return (← items v).getLast?.getD .undefined else refuse

def firstOf : Value → Reply Value
  | .undefined | .none => refuse
  | v => do return (← items v).head?.getD .undefined

/-- The entries of a mapping as pairs. -/
def pairs (v : Value) : Reply (List (Value × Value)) :=
  if v.kind = .mapping then
    .ok ((v.keys?.getD []).map fun k => (k, (v.member? k).getD .undefined))
  else refuse

def pairValues (entries : List (Value × Value)) : Value := .list (entries.map fun e => .list [e.1, e.2])

/-! ### The filters by name -/

/-- A function of the value, with its text. -/
def onText (f : String → String) : Taking Value := return text (f (← Taking.text))

def onValue (f : Value → Reply Value) : Taking Value := do
  let v ← Taking.value
  f v

def truth (v : Option Bool) : Bool := v.getD false

/-- A positive count. -/
def ofCount (v : Value) : Reply Nat := do
  let n ← Value.count v
  if n = 0 then refuse else return n

/-- The filters that work on a value alone and with plain arguments. -/
def plain? (name : String) : Option (Taking Value) :=
  match name with
  | "safe" => some do return .str (← Taking.text) true
  | "escape" | "e" => some do
    let v ← Taking.value
    if v.isSafe then return v
    else return .str (v.printed .markup) true
  | "lower" => some (onText Text.lower)
  | "upper" => some (onText Text.upper)
  | "title" => some (onText fun s => String.ofList (titled true s.toList))
  | "capitalize" => some (onText capitalized)
  | "replace" => some do
    let s ← Taking.text
    let part ← Taking.text
    return text (replaced s part (← Taking.text))
  | "length" | "count" => some do
    match (← Taking.value).length? with
    | some n => return .nat n
    | none => throw .invalidOperation
  | "items" => some do
    let v ← Taking.value
    return pairValues (← pairs v)
  | "reverse" => some (onValue reversed)
  | "trim" => some do
    let s ← Taking.text
    return text (trimmed s (← Taking.optional Taking.ofText))
  | "join" => some do
    let v ← Taking.value
    let joiner ← Taking.optional Taking.ofText
    return text (joined (joiner.getD "") (← items v))
  | "split" => some do
    let s ← Taking.text
    let separator ← Taking.optional Taking.ofText
    let limit ← Taking.optional Taking.ofWhole
    return .stream ((pieces s separator limit).map text) false
  | "lines" => some do return .list ((Text.lines (← Taking.text)).map text)
  | "default" | "d" => some do
    let v ← Taking.value
    let other ← Taking.optional Except.ok
    let lax ← Taking.optional Taking.ofBool
    if v.isUndefined || (truth lax && !v.isTrue) then return other.getD (text "") else return v
  | "round" => some do
    let v ← Taking.value
    let places ← Taking.optional Taking.ofWhole
    match v with
    | .int n => return .int n
    | .real x => return .real (rounded x (places.getD 0))
    | _ => throw .invalidOperation
  | "abs" => some (onValue absolute)
  | "int" => some (onValue toWhole)
  | "float" => some (onValue toReal)
  | "floor" => some do return .int (toSigned (← Taking.one Taking.ofReal).floor)
  | "ceil" => some do return .int (toSigned (← Taking.one Taking.ofReal).neg.floor.neg)
  | "attr" => some do
    let v ← Taking.value
    let key ← Taking.value
    v.memberOf key
  | "first" => some (onValue firstOf)
  | "last" => some (onValue lastOf)
  | "min" => some (onValue fun v => least <$> items v)
  | "max" => some (onValue fun v => greatest <$> items v)
  | "list" => some (onValue fun v => .list <$> items v)
  | "string" => some (onValue fun v => .ok (if v.isText then v else text v.shown))
  | "bool" => some (onValue fun v => .ok (.bool v.isTrue))
  | "batch" => some do
    let v ← Taking.value
    let n ← Taking.one ofCount
    let filler ← Taking.optional Except.ok
    let vs ← items v
    return .list (batches vs.length n filler vs)
  | "slice" => some do
    let v ← Taking.value
    let n ← Taking.one ofCount
    let filler ← Taking.optional Except.ok
    return .list (slices n filler (← items v))
  | "sum" => some (onValue fun v => items v >>= total)
  | "indent" => some do
    let s ← Taking.text
    let width ← Taking.one Value.count
    let first ← Taking.optional Taking.ofBool
    let blank ← Taking.optional Taking.ofBool
    return text (indented s width (truth first) (truth blank))
  | "chain" => some do
    let v ← Taking.value
    let others ← Taking.rest
    let vs := v :: others
    if vs.all fun v => v.kind = .mapping then
      let entries ← (vs.mapM pairs : Reply (List (List (Value × Value))))
      return .ofPairs entries.flatten
    else
      let lists ← (vs.mapM items : Reply (List (List Value)))
      return .stream lists.flatten (vs.all fun v => v.size?.isSome)
  | "zip" => some do
    let v ← Taking.value
    let others ← Taking.rest
    let lists : List (List Value) ← ((v :: others).mapM items : Reply (List (List Value)))
    return .list (transposed lists)
  | "pprint" => some (onValue fun v => .ok (text v.shownStacked))
  | _ => none

/-- The filters that take keywords; the value and the arguments before the keywords are given. -/
def keyed? (name : String) (keywords : Table Value) : Option (Taking Value) :=
  let exact : Reply Bool := return truth (← Taking.keyword? keywords "case_sensitive" Taking.ofBool)
  let path : Reply (Option String) := Taking.keyword? keywords "attribute" Taking.ofName
  let backward : Reply Bool := return truth (← Taking.keyword? keywords "reverse" Taking.ofBool)
  match name with
  | "sort" => some do
    let v ← Taking.value
    let vs ← items v
    let order := attributeOrder (← exact) (← path)
    let vs := sorted order vs
    let vs := if ← backward then vs.reverse else vs
    Taking.onlyKeywords ["case_sensitive", "attribute", "reverse"] keywords
    return .list vs
  | "dictsort" => some do
    let v ← Taking.value
    let entries ← pairs v
    let byValue ← match ← Taking.keyword? keywords "by" Taking.ofName with
      | none | some "key" => pure false
      | some "value" => pure true
      | some _ => throw .invalidOperation
    let exact ← exact
    let part (e : Value × Value) : Value := if byValue then e.2 else e.1
    let entries := entries.mergeSort fun a b => sortOrder exact (part a) (part b) != .gt
    let entries := if ← backward then entries.reverse else entries
    Taking.onlyKeywords ["by", "case_sensitive", "reverse"] keywords
    return pairValues entries
  | "unique" => some do
    let v ← Taking.value
    let exact ← exact
    let path ← path
    Taking.onlyKeywords ["case_sensitive", "attribute"] keywords
    let key (v : Value) : Value :=
      let v := match path with
        | some path => (v.memberAlong path).toOption.getD .undefined
        | none => v
      match v with
      | .str s _ => if exact then v else text (Text.lower s)
      | v => v
    return .list (distinct key [] (← items v))
  | "groupby" => some do
    let v ← Taking.value
    let given ← Taking.optional Taking.ofName
    let exact ← exact
    let path := given <|> (← path)
    let standard := (keywords.valueAt? "default").getD .undefined
    Taking.onlyKeywords ["case_sensitive", "attribute", "default"] keywords
    let some path := path | throw .missingArgument
    let keyOf (v : Value) : Value × Value :=
      let k := (v.memberAlong path).toOption.getD .undefined
      (if k.isUndefined then standard else k, v)
    let keyed := ((← items v).map keyOf).mergeSort fun a b => sortOrder exact a.1 b.1 != .gt
    let same (a b : Value) : Bool := sortOrder exact a b == .eq
    return .list ((grouped same keyed).map fun g => .group g.1 g.2)
  | _ => none

/-- The items of a list that satisfy a test, or that do not. -/
def chosen (names : List String) (keep : Bool) (path : Option String) (test : Option String)
    (args : List Value) (v : Value) : Reply Value := do
  if let some t := test then
    if (Test.named? names t).isNone then throw .unknownTest
  let vs ← (← items v).filterMapM fun item => do
    let asked ← match path with
      | some path => item.memberAlong path
      | none => pure item
    let passed ← match test with
      | some t => Test.run names t (asked :: args)
      | none => pure asked.isTrue
    return if passed == keep then some item else none
  return .list vs

/-- The filters that choose items by a test. -/
def choosing? (names : List String) (name : String) : Option (Taking Value) :=
  let plainly (keep : Bool) : Taking Value := do
    let v ← Taking.value
    let test ← Taking.optional Taking.ofText
    let args ← Taking.rest
    chosen names keep none test args v
  let byAttribute (keep : Bool) : Taking Value := do
    let v ← Taking.value
    let path ← Taking.text
    let test ← Taking.optional Taking.ofText
    let args ← Taking.rest
    chosen names keep (some path) test args v
  match name with
  | "select" => some (plainly true)
  | "reject" => some (plainly false)
  | "selectattr" => some (byAttribute true)
  | "rejectattr" => some (byAttribute false)
  | _ => none

/-- The attributes of all items. -/
def mapAttribute (key : Value) (standard : Value) (v : Value) : Reply Value := do
  let vs ← (← items v).mapM fun item => do
    let found := match key with
      | .str path _ => item.memberAlong path
      | key => item.memberOf key
    match found with
    | .ok value => return if value.isUndefined then standard else value
    | .error fault => if standard.isUndefined then throw fault else return standard
  return .list vs

/-- Applies the filter that the first argument names to all items. -/
def mapFilter (apply : String → List Value → Reply Value) (known : List String) (v : Value)
    (args : List Value) : Reply Value := do
  match args with
  | .str inner _ :: more =>
    if !known.contains inner then throw .unknownFilter
    return .list (← (← items v).mapM fun item => apply inner (item :: more))
  | _ => refuse

/-- Runs a filter, one of the `extra` ones or one that every template knows; `fuel` bounds how many filters can name
one another. -/
def runWithin (fuel : Nat) (extra : FilterSet) (name : String) (args : List Value) : Reply Value :=
  let (positional, keywords) := Taking.split args
  match extra.valueAt? name with
  | some f => f args
  | none =>
    match plain? name, keyed? name keywords, choosing? extra.keyList name with
    | some f, _, _ => Taking.run f args
    | _, some f, _ => Taking.run f positional
    | _, _, some f => Taking.run f args
    | none, none, none =>
      match fuel, name, args with
      | fuel + 1, "map", v :: _ =>
        match keywords.valueAt? "attribute" with
        | some key => do
          if 1 < positional.length then throw .tooManyArguments
          Taking.onlyKeywords ["attribute", "default"] keywords
          mapAttribute key ((keywords.valueAt? "default").getD .undefined) v
        | none =>
          mapFilter (runWithin fuel extra) (Test.filterNames ++ extra.keyList) v
            (positional.drop 1)
      | _, "map", _ => .error .missingArgument
      | _, _, _ => .error .unknownFilter

/-- Runs a filter on the value before it and its arguments. Each filter named by another one has one
argument less. -/
def run (extra : FilterSet) (name : String) (args : List Value) : Reply Value :=
  runWithin args.length extra name args

end Filter

end Bitpress.Template
