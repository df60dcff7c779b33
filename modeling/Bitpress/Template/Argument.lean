import Bitpress.Template.Arithmetic

/-!
The arguments of functions, filters and tests, taken one after the other.
Keywords stand behind all others. What is missing, of the wrong kind or left over
is a fault.
-/

namespace Bitpress.Template

/-- A reader of arguments. -/
abbrev Taking (α : Type) := StateT (List Value) (Except TemplateFault) α

namespace Taking

open Value (Reply refuse)

/-- The next argument, if there is one. -/
def next? : Taking (Option Value) := do
  match ← get with
  | [] => return none
  | v :: rest => set rest; return some v

def value : Taking Value := do
  match ← next? with
  | some v => return v
  | none => throw .missingArgument

/-- Any value as a text. -/
def ofText : Value → Reply String
  | .keywords _ => refuse
  | v => .ok v.shown

/-- A text that is one. -/
def ofName : Value → Reply String
  | .str s _ => .ok s
  | _ => refuse

def ofBool : Value → Reply Bool
  | .bool b => .ok b
  | _ => refuse

/-- A number, whole or not. -/
def ofReal (v : Value) : Reply Binary64 :=
  if v.isNumber then
    match v.real? true with
    | some x => .ok x
    | none => refuse
  else refuse

def ofWhole (v : Value) : Reply Int :=
  match v.whole? with
  | some n => if Number.leastInt ≤ n ∧ n ≤ Number.greatestSigned then .ok n else refuse
  | none => refuse

def one (read : Value → Reply α) : Taking α := do
  let v ← value
  read v

/-- An argument that may be missing; what is undefined or none counts as missing. -/
def optional (read : Value → Reply α) : Taking (Option α) := do
  match ← next? with
  | none => return none
  | some .undefined | some .none => return none
  | some v => some <$> read v

def text : Taking String := one ofText

def rest : Taking (List Value) := do
  let vs ← get
  set ([] : List Value)
  return vs

/-- Takes all arguments. -/
def run {α : Type} (t : Taking α) (args : List Value) : Reply α := do
  let (a, left) ← StateT.run t args
  if left.isEmpty then return a else throw .tooManyArguments

/-- The arguments without the keywords behind them, and these. -/
def split (args : List Value) : List Value × Table Value :=
  match args.getLast? with
  | some (.keywords entries) => (args.dropLast, entries)
  | _ => (args, [])

/-- A keyword, read as an argument that may be missing. -/
def keyword? (entries : Table Value) (key : String) (read : Value → Reply α) :
    Reply (Option α) :=
  match entries.valueAt? key with
  | none | some .undefined | some .none => .ok none
  | some v => some <$> read v

/-- Every keyword is known. -/
def onlyKeywords (known : List String) (entries : Table Value) : Reply Unit :=
  if entries.keyList.all known.contains then .ok () else .error .tooManyArguments

end Taking

end Bitpress.Template
