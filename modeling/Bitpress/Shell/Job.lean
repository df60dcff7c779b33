import Bitpress.Shell.Command
import Bitpress.Shell.Condition
import Bitpress.Shell.FileTool
import Bitpress.Shell.Format
import Bitpress.Shell.TextTool

/-!
A job of a shell: what its commands see and change. Output goes to numbered
descriptors, each of which leads to a stream that is kept, to a file, or nowhere.
-/

namespace Bitpress.Shell

inductive Sink
  | stream (n : Nat)
  | file (p : Location)
  | nowhere
deriving Inhabited

structure Job where
  files : FileTree
  directory : Location
  name : String := "sh"
  parameters : List String := []
  vars : Table String := []
  status : Nat := 0
  functions : List (String × Command) := []
  sinks : List (Nat × Sink) := [(1, .stream 0), (2, .stream 1)]
  streams : Array ByteArray := #[.empty, .empty]
  input : ByteArray := .empty
  /-- Whether a failing command ends the script. -/
  strict : Bool := false
deriving Inhabited

/-- What ends more than the command that does it. -/
inductive Leave
  | exit (status : Nat)
  | killed
  | broken (loops : Nat)
  | continued (loops : Nat)
  | returned (status : Nat)

abbrev Act (α : Type) := ExceptT Leave (StateM Job) α

namespace Job

def idText : String := "4096"

def emit (descriptor : Nat) (bytes : ByteArray) : Act Unit := do
  if bytes.isEmpty then return
  let s ← getThe Job
  match s.sinks.lookup descriptor with
  | some (.stream n) => set { s with streams := s.streams.modify n (· ++ bytes) }
  | some (.file p) =>
    let old := ((s.files.content p).toOption.map FileContent.bytes).getD .empty
    set { s with files := (s.files.write p (.ofBytes (old ++ bytes))).toOption.getD s.files }
  | _ => return

def settle (status : Nat) : Act Unit := modifyThe Job fun s => { s with status }

def report (status : Nat) (text : String) : Act Unit := do
  emit 2 (text ++ "\n").toUTF8
  settle status

def valueOf (s : Job) (name : String) : Option String :=
  match name with
  | "?" => some (toString s.status)
  | "#" => some (toString s.parameters.length)
  | "$" => some idText
  | "0" => some s.name
  | "!" => none
  | "-" => some ""
  | "@" | "*" => if s.parameters = [] then none else some (String.intercalate " " s.parameters)
  | name =>
    match name.toNat? with
    | some n => s.parameters[n - 1]?
    | none => s.vars.valueAt? name

def assign (name value : String) : Act Unit :=
  modifyThe Job fun s => { s with vars := s.vars.put name value }

/-- The programs that are no part of the shell. -/
def utilities : List (String × Utility) :=
  [("cat", TextTool.cat), ("tee", TextTool.tee), ("grep", TextTool.grep), ("sed", TextTool.sed),
    ("head", TextTool.head), ("tail", TextTool.tail), ("wc", TextTool.wc), ("tr", TextTool.tr),
    ("sort", TextTool.sort), ("uniq", TextTool.uniq), ("rev", TextTool.rev), ("tac", TextTool.tac),
    ("cmp", TextTool.cmp), ("chmod", FileTool.chmod), ("seq", TextTool.seq), ("cp", FileTool.cp), ("mv", FileTool.mv),
    ("rm", FileTool.rm), ("mkdir", FileTool.mkdir), ("rmdir", FileTool.rmdir), ("touch", FileTool.touch),
    ("ls", FileTool.ls), ("basename", FileTool.basename), ("dirname", FileTool.dirname),
    ("echo", Format.echo), ("printf", Format.printf), ("test", Condition.test), ("[", Condition.bracket),
    ("true", fun _ => pure ()), ("false", fun _ => Desk.fail 1 ""), ("sleep", fun _ => pure ())]

/-- The utility of a name, which may be a path to it. -/
def utility? (name : String) : Option Utility :=
  let bare := ((["/bin/", "/usr/bin/"] : List String).findSome? fun dir => Text.withoutStart? dir name).getD name
  utilities.lookup bare

def runUtility (u : Utility) (arguments : List String) : Act Unit := do
  let s ← getThe Job
  let (_, d) := (u arguments).run { directory := s.directory, files := s.files, input := s.input }
  set { s with files := d.files, status := d.status }
  emit 1 d.output
  if d.errors.any (· != '\n') then emit 2 d.errors.toUTF8

/-! ### Commands that are part of the shell -/

def statusOf (arguments : List String) (s : Job) : Nat :=
  match arguments with
  | [] => s.status
  | a :: _ => (a.toNat?.map (· % 256)).getD 2

/-- Signals that do not end a job that does not expect them. -/
def harmless : List String := ["0", "CHLD", "CONT", "URG", "WINCH", "17", "18", "23", "28"]

def kill (arguments : List String) : Act Unit := do
  let signal := (arguments.head?.bind fun a => Text.withoutStart? "-" a).map fun s =>
    if s = "s" then (arguments.drop 1).head?.getD "" else s
  if arguments.getLast? = some idText then
    if harmless.contains (signal.getD "TERM") then settle 0 else throw .killed
  else report 1 "kill: no such job"

def changeDirectory (arguments : List String) : Act Unit := do
  let s ← getThe Job
  let wanted := arguments.head?.getD ((s.vars.valueAt? "HOME").getD "/")
  match s.files.canonical? (s.directory.join ⟨wanted⟩) with
  | some p =>
    if s.files.isDirectory p then set { s with directory := p, status := 0 }
    else report 2 ("cd: can't cd to " ++ wanted)
  | none => report 2 ("cd: can't cd to " ++ wanted)

/-- Assigns the fields of a line to names; the last name takes the rest. -/
def readLine (names : List String) : Act Unit := do
  let s ← getThe Job
  let text := (TextTool.textOf s.input).toList
  if text = [] then settle 1
  else
    let line := text.takeWhile (· != '\n')
    set { s with input := (String.ofList (text.drop (line.length + 1))).toUTF8, status := 0 }
    let rec fill (names : List String) (cs : List Char) : Act Unit := do
      match names with
      | [] => pure ()
      | [name] => assign name (Text.trim (String.ofList cs))
      | name :: rest =>
        let cs := Text.skipBlanks cs
        let word := cs.takeWhile fun c => !Text.isBlank c
        assign name (String.ofList word)
        fill rest (cs.drop word.length)
    fill names line

def setOptions : (arguments : List String) → Act Unit
  | [] => settle 0
  | "--" :: rest => modifyThe Job fun s => { s with parameters := rest, status := 0 }
  | a :: rest => do
    if a.startsWith "-" || a.startsWith "+" then
      if a.toList.contains 'e' then modifyThe Job fun s => { s with strict := a.startsWith "-" }
      setOptions rest
    else modifyThe Job fun s => { s with parameters := a :: rest, status := 0 }

def exportNames (arguments : List String) : Act Unit := do
  for a in arguments do
    match Text.cutAt? ['='] a.toList with
    | some (name, value) => assign (String.ofList name) (String.ofList value)
    | none => pure ()
  settle 0

/-- Runs a command that is part of the shell and needs no script, if there is one of the name. -/
def builtin? (name : String) (arguments : List String) : Option (Act Unit) :=
  let count : Nat := (arguments.head?.bind String.toNat?).getD 1
  match name with
  | ":" | "trap" | "wait" | "umask" | "unalias" | "ulimit" => some (settle 0)
  | "exit" => some do throw (.exit (statusOf arguments (← getThe Job)))
  | "return" => some do throw (.returned (statusOf arguments (← getThe Job)))
  | "break" => some (throw (.broken count))
  | "continue" => some (throw (.continued count))
  | "kill" => some (kill arguments)
  | "cd" => some (changeDirectory arguments)
  | "pwd" => some do
    emit 1 ((← getThe Job).directory.text ++ "\n").toUTF8
    settle 0
  | "read" => some (readLine (arguments.filter fun a => !a.startsWith "-"))
  | "set" => some (setOptions arguments)
  | "export" | "readonly" | "local" => some (exportNames arguments)
  | "unset" => some (modifyThe Job fun s =>
    { s with vars := arguments.foldl (fun t a => t.without a) s.vars, status := 0 })
  | "shift" => some (modifyThe Job fun s =>
    if s.parameters.length < count then { s with status := 2 }
    else { s with parameters := s.parameters.drop count, status := 0 })
  | _ => none

end Job

end Bitpress.Shell
