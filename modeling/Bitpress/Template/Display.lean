import Bitpress.Template.Value

/-!
How values are written: as running text, inside of other values, and escaped for
markup.
-/

namespace Bitpress.Template

/-- Whether the characters of markup are escaped in what is written. -/
inductive Escaping
  | none
  | markup
deriving DecidableEq, Inhabited

namespace Value

/-- The text of a floating point number that may be infinite. -/
def realText (layout : RealLayout) (x : Binary64) : String :=
  if x.isNaN then "NaN"
  else if x.isInfinite then (if x.isNegative then "-inf" else "inf")
  else layout.textOf x

def bracketed (opening closing : String) (parts : List String) : String :=
  opening ++ String.intercalate ", " parts ++ closing

/-- One part on each line, indented, with a comma behind it. -/
def stacked (opening closing : String) (parts : List String) : String :=
  if parts.isEmpty then opening ++ closing
  else
    let indented (part : String) : String :=
      String.intercalate "\n" ((Text.split '\n' part).map fun line => "    " ++ line)
    opening ++ "\n" ++ String.join (parts.map fun p => indented p ++ ",\n") ++ closing

/-- The spelling of collections: on one line or stacked. -/
def arranged (tall : Bool) : String → String → List String → String :=
  if tall then stacked else bracketed

/-- The text of a value inside of another one. `fuel` bounds the nesting. -/
def inspect (tall : Bool) (fuel : Nat) (v : Value) : String :=
  match fuel with
  | 0 => "..."
  | fuel + 1 =>
    let listed (items : List Value) : String := arranged tall "[" "]" (items.map (inspect tall fuel))
    let mapped (entries : List (Value × Value)) : String :=
      arranged tall "\x7b" "\x7d"
        (entries.map fun e => inspect tall fuel e.1 ++ ": " ++ inspect tall fuel e.2)
    match v with
    | .undefined => "undefined"
    | .none => "None"
    | .bool b => if b then "True" else "False"
    | .int n => toString n
    | .real x => realText .inspected x
    | .str s _ => Text.quoted s
    | .list items => listed items
    | .stream items sized => if sized then listed items else "<iterator>"
    | .group key items => listed [key, .list items]
    | .map entries => mapped entries
    | .record entries | .keywords entries => mapped (entries.map fun e => (text e.1, e.2))
    | .constant c => c.text
    | .procedure p _ => "<macro " ++ p.name ++ ">"
    | .builtin _ => "<function>"
    | .loop _ => "<loop>"
    | v => mapped ((v.keys?.getD []).map fun k => (k, (v.member? k).getD .undefined))

/-- The text of a value. -/
def shown (v : Value) : String :=
  match v with
  | .undefined => ""
  | .real x => realText .running x
  | .str s _ => s
  | v => v.inspect false deepest

/-- The text of a value with its parts on lines of their own. -/
def shownStacked (v : Value) : String := v.inspect true deepest

def escapedMarkup (c : Char) : List Char :=
  match c with
  | '<' => "&lt;".toList
  | '>' => "&gt;".toList
  | '&' => "&amp;".toList
  | '"' => "&quot;".toList
  | '\'' => "&#x27;".toList
  | '/' => "&#x2f;".toList
  | c => [c]

def escapeMarkup (s : String) : String := String.ofList (s.toList.flatMap escapedMarkup)

def isSafe : Value → Bool
  | .str _ safe => safe
  | _ => false

/-- What a template prints for a value. -/
def printed (mode : Escaping) (v : Value) : String :=
  match mode with
  | .none => v.shown
  | .markup =>
    if v.isSafe then v.shown
    else
      match v.kind with
      | .undefined | .none | .bool | .number => v.shown
      | _ => escapeMarkup v.shown

end Value

end Bitpress.Template
