import Bitpress.Template.Statement

/-!
Free variables: the names that a macro uses and does not assign itself. A macro
takes them along from where it is defined.
-/

namespace Bitpress.Template

mutual

/-- The variables in an expression. -/
def Expr.mentions : Expr → List String
  | .literal _ => []
  | .variable s => [s]
  | .list items => itemVariables items
  | .dictionary entries => entryVariables entries
  | .negation e | .opposite e => e.mentions
  | .binary _ a b => a.mentions ++ b.mentions
  | .choice yes condition no => condition.mentions ++ yes.mentions ++ optionVariables no
  | .filtered e _ args | .tested e _ args => e.mentions ++ argVariables args
  | .attribute e _ => e.mentions
  | .item e i => e.mentions ++ i.mentions
  | .slice e a b c => e.mentions ++ optionVariables a ++ optionVariables b ++ optionVariables c
  | .call e args => e.mentions ++ argVariables args

def itemVariables : List Expr → List String
  | [] => []
  | e :: rest => e.mentions ++ itemVariables rest

def entryVariables : List (Expr × Expr) → List String
  | [] => []
  | (k, v) :: rest => k.mentions ++ v.mentions ++ entryVariables rest

def optionVariables : Option Expr → List String
  | none => []
  | some e => e.mentions

def argVariables : List Arg → List String
  | [] => []
  | .positional e :: rest | .spread e :: rest | .spreadKeywords e :: rest | .keyword _ e :: rest =>
    e.mentions ++ argVariables rest

end

/-- The names that an assignment gives values to. -/
def Target.names : Target → List String
  | .name s => [s]
  | .attribute .. => []
  | .several targets => targetNames targets
where
  targetNames : List Target → List String
    | [] => []
    | t :: rest => t.names ++ targetNames rest

/-- What was found so far: the names assigned and the free ones. -/
structure Names where
  bound : List String := []
  free : List String := []

namespace Names

/-- Uses of variables: those not assigned are free. -/
def use (n : Names) (names : List String) : Names :=
  { n with free := n.free ++ names.filter fun s => !n.bound.contains s && !n.free.contains s }

def bind (n : Names) (names : List String) : Names := { n with bound := names ++ n.bound }

/-- Leaves an inner part, whose assignments end with it. -/
def leave (outer inner : Names) : Names := ⟨outer.bound, inner.free⟩

def useFilters (n : Names) (filters : List FilterCall) : Names :=
  n.use (filters.flatMap fun f => argVariables f.args)

end Names

mutual

def Statement.names (n : Names) : Statement → Names
  | .text _ | .block _ => n
  | .print e | .inherit e | .insert e _ => n.use e.mentions
  | .loop target items condition _ body otherwise =>
    let inner := ((n.use items.mentions).bind ("loop" :: target.names)).use (optionVariables condition)
    let n := n.leave (namesOf inner body)
    n.leave (namesOf n otherwise)
  | .branch condition yes no =>
    let n := n.use condition.mentions
    let n := n.leave (namesOf n yes)
    n.leave (namesOf n no)
  | .scope assignments body =>
    n.leave (namesOf (assignments.foldl (fun n a => (n.bind a.1.names).use a.2.mentions) n) body)
  | .assign target e => (n.bind target.names).use e.mentions
  | .capture target filters body =>
    let n := n.bind target.names
    n.leave (namesOf (n.useFilters filters) body)
  | .escaping e body =>
    let n := n.use e.mentions
    n.leave (namesOf n body)
  | .filtering filters body =>
    let n := n.useFilters filters
    n.leave (namesOf n body)
  | .bring e target => (n.use e.mentions).bind target.names
  | .bringNames e names => (n.use e.mentions).bind (names.map Prod.snd)
  | .define p =>
    let n := n.bind [p.name]
    p.names n
  | .callWith callee args caller => caller.names ((n.use callee.mentions).use (argVariables args))
  | .perform callee args => (n.use callee.mentions).use (argVariables args)

def Procedure.names (n : Names) : Procedure → Names
  | ⟨_, parameters, body⟩ =>
    let inner := n.bind (parameters.map Parameter.name)
    let inner := inner.use (parameters.flatMap fun p => optionVariables p.standard)
    n.leave (namesOf inner body)

def namesOf (n : Names) : List Statement → Names
  | [] => n
  | s :: rest => namesOf (s.names n) rest

end

/-- The names that a macro takes along. -/
def Procedure.free (p : Procedure) : List String := (p.names {}).free

/-- Whether a macro uses what a call block hands it. -/
def Procedure.usesCaller (p : Procedure) : Bool := p.free.contains "caller"

end Bitpress.Template
