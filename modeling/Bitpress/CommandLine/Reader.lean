import Bitpress.CommandLine.Form
import Bitpress.Text.Cut

/-!
Reading a command line by its form. Options may stand anywhere before a double
dash, and their values are checked when the next argument is looked at. What a
form asks for on the whole is checked last.
-/

namespace Bitpress.CommandLine

/-- What is wrong with a command line. -/
inductive Mistake
  | unknownArgument (written : String)
  | unknownCommand (written : String)
  | commandAfterDashes (name : String)
  | valueRequired (argument : String)
  | unexpectedValue (value argument : String)
  | invalidValue (value argument : String)
  | repeated (argument : String)
  | together (argument other : String)
  | missing (operands : List String)
deriving DecidableEq

namespace Mistake

def message : Mistake → String
  | unknownArgument written => "unexpected argument '" ++ written ++ "' found"
  | unknownCommand written => "unrecognized subcommand '" ++ written ++ "'"
  | commandAfterDashes name => "subcommand '" ++ name ++ "' exists; to use it, remove the '--' before it"
  | valueRequired argument => "a value is required for '" ++ argument ++ "' but none was supplied"
  | unexpectedValue value argument => "unexpected value '" ++ value ++ "' for '" ++ argument ++ "' found; no more were expected"
  | invalidValue value argument => "invalid value '" ++ value ++ "' for '" ++ argument ++ "'"
  | repeated argument => "the argument '" ++ argument ++ "' cannot be used multiple times"
  | together argument other => "the argument '" ++ argument ++ "' cannot be used with '" ++ other ++ "'"
  | missing _ => "the following required arguments were not provided:"

end Mistake

/-- What ends the reading of a command line before all is read. -/
inductive Stop
  | mistake (m : Mistake)
  | help (long : Bool)
  | version
deriving DecidableEq

/-- An option or operand whose value is not checked yet. -/
inductive Pending
  | nothing
  /-- An option whose value is the next argument. -/
  | waiting (f : Flag)
  | valued (f : Flag) (value : String)
  | operand (o : Operand) (value : String)
deriving DecidableEq

/-- What has been given so far, in order. -/
structure Given where
  options : List (String × String) := []
  operands : List String := []
  pending : Pending := .nothing
deriving Inhabited

instance : Inhabited Pending := ⟨.nothing⟩

namespace Given

def has (g : Given) (name : String) : Bool := g.options.any fun o => o.1 == name

def value? (g : Given) (name : String) : Option String := (g.options.find? fun o => o.1 == name).map Prod.snd

def refuse (m : Mistake) : Except Stop α := .error (.mistake m)

/-- Adds an option, once. -/
def option (g : Given) (f : Flag) (value : String) : Except Stop Given :=
  if g.has f.name then refuse (.repeated f.text)
  else if f.value.isSome ∧ value = "" then refuse (.valueRequired f.text)
  else if f.choices ≠ [] ∧ !(f.choices.any fun c => c.name == value) then refuse (.invalidValue value f.text)
  else .ok { g with options := g.options ++ [(f.name, value)] }

/-- Checks what is pending. -/
def settle (g : Given) : Except Stop Given :=
  let free : Given := { g with pending := .nothing }
  match g.pending with
  | .nothing => .ok g
  | .waiting f => refuse (.valueRequired f.text)
  | .valued f value => free.option f value
  | .operand o value =>
    if value = "" then refuse (.valueRequired o.text) else .ok { free with operands := free.operands ++ [value] }

/-- Carries out an option without a value. -/
def switch (g : Given) (f : Flag) : Except Stop Given := do
  let g ← g.settle
  match f.name with
  | "help" => throw (.help true)
  | "version" => throw .version
  | _ => g.option f ""

/-- Takes an option of which a value may be attached. -/
def take (g : Given) (f : Flag) (attached : Option String) : Except Stop Given := do
  let g ← g.settle
  match attached with
  | some value => return { g with pending := .valued f value }
  | none => return { g with pending := .waiting f }

/-- Takes an option by its name, as in `--name` or `--name=value`. -/
def long (g : Given) (form : Form) (written : List Char) : Except Stop Given :=
  let (name, attached) := match Text.cutAt? ['='] written with
    | some (name, value) => (String.ofList name, some (String.ofList value))
    | none => (String.ofList written, none)
  match form.flag? name with
  | none => refuse (.unknownArgument ("--" ++ name))
  | some f =>
    match f.value, attached with
    | some _, attached => do
      let g ← g.take f attached
      if attached.isSome then g.settle else return g
    | none, some value => refuse (.unexpectedValue value f.text)
    | none, none => g.switch f

/-- Takes options by their letters. The rest of the argument is the value of the first that takes one. -/
def letters (g : Given) (form : Form) : List Char → Except Stop Given
  | [] => .ok g
  | c :: rest =>
    match form.flagOf? c with
    | none => refuse (.unknownArgument ("-" ++ String.singleton c))
    | some f =>
      if f.value.isNone then
        if f.name = "help" then do
          discard g.settle
          throw (.help false)
        else do letters (← g.switch f) form rest
      else
        match rest with
        | [] => g.take f none
        | '=' :: value => do (← g.take f (some (String.ofList value))).settle
        | value => do (← g.take f (some (String.ofList value))).settle

/-- What an argument is that is no option. -/
def stray (form : Form) (afterDashes : Bool) (written : String) : Mistake :=
  if afterDashes ∧ form.hasCommand written then .commandAfterDashes written
  else if form.commands ≠ [] ∧ form.operands = [] then .unknownCommand written
  else .unknownArgument written

/-- Takes an operand. -/
def operand (g : Given) (form : Form) (afterDashes : Bool) (written : String) : Except Stop Given := do
  let taken := g.operands.length + match g.pending with
    | .operand .. => 1
    | _ => 0
  match form.operands[taken]? with
  | none => refuse (stray form afterDashes written)
  | some o => return { (← g.settle) with pending := .operand o written }

/-- Checks what the form asks for on the whole. -/
def finish (g : Given) (form : Form) : Except Stop Given := do
  let g ← g.settle
  for o in g.options do
    if let some rival := (form.rivalsOf o.1).find? g.has then
      let shown (name : String) : String := ((form.flag? name).map Flag.text).getD name
      throw (.mistake (.together (shown o.1) (shown rival)))
  match form.operands.drop g.operands.length with
  | [] => return g
  | rest => throw (.mistake (.missing (rest.map Operand.text)))

/-- Reads arguments up to the name of a command, which comes with the arguments that follow it. -/
def read (g : Given) (form : Form) (afterDashes : Bool) :
    (arguments : List String) → Except Stop (Given × Option (String × List String))
  | [] => .ok (g, none)
  | a :: rest =>
    let waits := g.pending matches .waiting _
    let onward (r : Except Stop Given) : Except Stop (Given × Option (String × List String)) := do
      read (← r) form afterDashes rest
    if afterDashes then onward (g.operand form true a)
    else if !waits && form.hasCommand a then .ok (g, some (a, rest))
    else
      match a.toList with
      | ['-', '-'] => read g form true rest
      | '-' :: '-' :: written => onward (g.long form written)
      | '-' :: c :: written => onward (g.letters form (c :: written))
      | _ =>
        match g.pending with
        | .waiting f => read { g with pending := .valued f a } form false rest
        | _ => onward (g.operand form false a)

end Given

end Bitpress.CommandLine
