import Bitpress.Binary64
import Bitpress.Table

/-!
The parts of a template: expressions, and statements with the expressions and
statements in them.
-/

namespace Bitpress.Template

inductive Literal
  | none
  | bool (b : Bool)
  | int (n : Nat)
  | real (x : Binary64)
  | str (s : String)
deriving Inhabited

inductive Operator
  | either
  | both
  | equal
  | different
  | less
  | lessOrEqual
  | greater
  | greaterOrEqual
  | within
  | plus
  | minus
  | concat
  | times
  | quotient
  | wholeQuotient
  | remainder
  | power
deriving DecidableEq, Inhabited

mutual

inductive Expr
  | literal (value : Literal)
  | variable (name : String)
  | list (items : List Expr)
  | dictionary (entries : List (Expr × Expr))
  | negation (e : Expr)
  | opposite (e : Expr)
  | binary (op : Operator) (left right : Expr)
  | choice (yes condition : Expr) (no : Option Expr)
  | filtered (e : Expr) (name : String) (args : List Arg)
  | tested (e : Expr) (name : String) (args : List Arg)
  | attribute (e : Expr) (name : String)
  | item (e : Expr) (index : Expr)
  | slice (e : Expr) (start stop step : Option Expr)
  | call (callee : Expr) (args : List Arg)

/-- An argument of a call; a spread one stands for several. -/
inductive Arg
  | positional (e : Expr)
  | keyword (name : String) (e : Expr)
  | spread (e : Expr)
  | spreadKeywords (e : Expr)

end

instance : Inhabited Expr := ⟨.literal .none⟩

instance : Inhabited Arg := ⟨.positional default⟩

/-- A filter to be applied, with its arguments. -/
structure FilterCall where
  name : String
  args : List Arg
deriving Inhabited

/-- What an assignment assigns to. -/
inductive Target
  | name (s : String)
  | attribute (e : Expr) (name : String)
  | several (targets : List Target)
deriving Inhabited

/-- A parameter of a macro. -/
structure Parameter where
  name : String
  standard : Option Expr
deriving Inhabited

mutual

inductive Statement
  | text (s : String)
  | print (e : Expr)
  | loop (target : Target) (items : Expr) (condition : Option Expr) (recursive : Bool)
      (body otherwise : List Statement)
  | branch (condition : Expr) (yes no : List Statement)
  | scope (assignments : List (Target × Expr)) (body : List Statement)
  | assign (target : Target) (e : Expr)
  | capture (target : Target) (filters : List FilterCall) (body : List Statement)
  | escaping (mode : Expr) (body : List Statement)
  | filtering (filters : List FilterCall) (body : List Statement)
  | block (name : String)
  | inherit (parent : Expr)
  | insert (template : Expr) (ignoreMissing : Bool)
  | bring (template : Expr) (target : Target)
  | bringNames (template : Expr) (names : List (String × String))
  | define (procedure : Procedure)
  | callWith (callee : Expr) (args : List Arg) (caller : Procedure)
  | perform (callee : Expr) (args : List Arg)

/-- A macro: named text with parameters. -/
inductive Procedure
  | mk (name : String) (parameters : List Parameter) (body : List Statement)

end

instance : Inhabited Statement := ⟨.text ""⟩

instance : Inhabited Procedure := ⟨⟨"", [], []⟩⟩

namespace Procedure

def name : Procedure → String
  | ⟨name, _, _⟩ => name

def parameters : Procedure → List Parameter
  | ⟨_, parameters, _⟩ => parameters

def body : Procedure → List Statement
  | ⟨_, _, body⟩ => body

end Procedure

/-- A template that has been read: its statements, and those of its blocks by name. -/
structure Script where
  body : List Statement
  blocks : Table (List Statement)
deriving Inhabited

end Bitpress.Template
