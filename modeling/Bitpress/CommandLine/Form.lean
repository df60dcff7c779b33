import Bitpress.Text.Basic

/-!
Forms of a command line: what a command is called, its operands, and its options.
Every operand has to be given, and no value is empty.

Help texts, from the form of a command. The short one gives each option a line; the
long one, for commands that have more to say, puts what an option does below it.
-/

namespace Bitpress.CommandLine

/-- A value that an option takes. -/
structure Choice where
  name : String
  help : Option String := none
deriving DecidableEq, Inhabited

structure Flag where
  name : String
  letter : Option Char := none
  /-- What the value is called, if the option takes one. -/
  value : Option String := none
  /-- The values that it takes; any, if none is named. -/
  choices : List Choice := []
  help : String
deriving DecidableEq, Inhabited

structure Operand where
  name : String
  help : String
deriving DecidableEq, Inhabited

structure Form where
  /-- The words that call the command. -/
  call : String
  about : String
  /-- What a long description says. -/
  details : Option String := none
  operands : List Operand := []
  flags : List Flag := []
  /-- Pairs of options that do not go together. -/
  rivals : List (String × String) := []
  /-- The names of the commands that may follow, and what they are about. -/
  commands : List (String × String) := []
  version : Option String := none
deriving DecidableEq, Inhabited

namespace Flag

/-- The option as messages name it. -/
def text (f : Flag) : String :=
  "--" ++ f.name ++ match f.value with
    | some v => " <" ++ v ++ ">"
    | none => ""

end Flag

def Operand.text (o : Operand) : String := "<" ++ o.name ++ ">"

namespace Form

def flag? (form : Form) (name : String) : Option Flag := form.flags.find? fun f => f.name == name

def flagOf? (form : Form) (letter : Char) : Option Flag := form.flags.find? fun f => f.letter == some letter

def hasCommand (form : Form) (name : String) : Bool := form.commands.any fun c => c.1 == name

/-- The options that do not go together with one. -/
def rivalsOf (form : Form) (name : String) : List String :=
  form.rivals.filterMap fun r => if r.1 = name then some r.2 else if r.2 = name then some r.1 else none

end Form

end Bitpress.CommandLine

namespace Bitpress.CommandLine.Form

/-- Whether there is a long description. -/
def hasLongHelp (form : Form) : Bool :=
  form.details.isSome || form.flags.any fun f => f.choices.any fun c => c.help.isSome

def spaces (n : Nat) : String := String.ofList (List.replicate n ' ')

def padded (width : Nat) (s : String) : String := s ++ spaces (width - s.length)

/-- Two columns; the first is as wide as its widest entry. -/
def columns (rows : List (String × String)) : List String :=
  let width := (rows.map fun r => r.1.length).foldl max 0
  rows.map fun r => "  " ++ padded width r.1 ++ "  " ++ r.2

/-- An option with its letter. -/
def spelling (f : Flag) : String :=
  (match f.letter with
    | some c => "-" ++ String.singleton c ++ ", "
    | none => "    ") ++ f.text

def choiceNames (f : Flag) : String :=
  if f.choices = [] then ""
  else " [possible values: " ++ String.intercalate ", " (f.choices.map Choice.name) ++ "]"

/-- The choices of an option, one a line, if there is something to say about them. -/
def choiceLines (f : Flag) : List String :=
  let width := (f.choices.map fun c => c.name.length).foldl max 0
  if f.choices.any fun c => c.help.isSome then
    "" :: "Possible values:" :: f.choices.map fun c => "- " ++ match c.help with
      | some help => c.name ++ ": " ++ spaces (width - c.name.length) ++ help
      | none => c.name
  else if f.choices = [] then [] else ["", choiceNames f]

def entry (title : String) (lines : List String) : List String :=
  ("  " ++ title) :: lines.map fun l => if l = "" then "" else spaces 10 ++ l

def usage (form : Form) : String :=
  "Usage: " ++ form.call ++ " [OPTIONS]" ++ String.join (form.operands.map fun o => " " ++ o.text) ++
    if form.commands = [] then "" else " [COMMAND]"

/-- Lists of lines with an empty line between two of them. -/
def spaced (blocks : List (List String)) : List String := [""].intercalate blocks

/-- The help text of a command. Options come in the order of the form. -/
def help (form : Form) (long : Bool) : String :=
  let long := long && form.hasLongHelp
  let commands := if form.commands = [] then [] else ["Commands:" :: columns form.commands]
  let operands := if form.operands = [] then []
    else ["Arguments:" ::
      if long then spaced (form.operands.map fun o => entry o.text [o.help])
      else columns (form.operands.map fun o => (o.text, o.help))]
  let about (f : Flag) : String :=
    if f.name = "help" then
      if long then "Print help (see a summary with '-h')"
      else if form.hasLongHelp then "Print help (see more with '--help')" else "Print help"
    else f.help
  let options := "Options:" ::
    if long then spaced (form.flags.map fun f => entry (spelling f) (about f :: choiceLines f))
    else columns (form.flags.map fun f => (spelling f, about f ++ choiceNames f))
  let description := if long then form.details.getD form.about else form.about
  String.intercalate "\n" (spaced ([[description], [form.usage]] ++ commands ++ operands ++ [options])) ++ "\n"

end Bitpress.CommandLine.Form
