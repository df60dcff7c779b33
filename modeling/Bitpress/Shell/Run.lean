import Bitpress.Files
import Bitpress.Shell.Expansion

/-!
Running scripts. A script that runs out of fuel is treated like one that was
killed.
-/

namespace Bitpress.Shell

open Job (emit settle report assign)

namespace Run

def mistake (text : String) : Act α := do
  report 2 ("sh: 1: " ++ text)
  throw (.exit 2)

/-- Runs a step that changes nothing but files and output. -/
def isolated (step : Act Unit) : Act Unit := do
  let before ← getThe Job
  let status ← tryCatch (do step; return (← getThe Job).status) fun
    | .killed => throw .killed
    | .exit n | .returned n => return n
    | _ => return (← getThe Job).status
  modifyThe Job fun s => { before with files := s.files, streams := s.streams, input := s.input, status }

/-- The output of a step that changes nothing but files. -/
def captured (step : Act Unit) : Act ByteArray := do
  let s ← getThe Job
  let n := s.streams.size
  set { s with streams := s.streams.push .empty, sinks := (1, .stream n) :: s.sinks }
  isolated step
  let bytes := ((← getThe Job).streams[n]?).getD .empty
  modifyThe Job fun now => { now with sinks := s.sinks, streams := now.streams.take n }
  return bytes

/-- Runs the body of a loop once, and tells whether the loop goes on. -/
def turn (step : Act Unit) : Act Bool :=
  tryCatch (do step; return true) fun
    | .broken n => if n ≤ 1 then return false else throw (.broken (n - 1))
    | .continued n => if n ≤ 1 then return true else throw (.continued (n - 1))
    | other => throw other

def fileSink (s : Job) (name : String) : Sink :=
  if name = "/dev/null" then .nowhere else .file (s.directory.join ⟨name⟩)

/-- Opens a redirection whose target is known; it tells whether that went well. -/
def openTarget (r : Redirection) (target : String) : Act Bool := do
  let s ← getThe Job
  let refused (verb : String) (fault : FileFault) : Act Bool := do
    report 2 ("sh: 1: cannot " ++ verb ++ " " ++ target ++ ": " ++ Desk.describe fault)
    return false
  let lead (sink : Sink) : Act Bool := do
    modifyThe Job fun s => { s with sinks := (r.descriptor, sink) :: s.sinks }
    return true
  match r.direction with
  | .hereText =>
    set { s with input := target.toUTF8 }
    return true
  | .duplicate =>
    match target.toNat?.bind fun n => s.sinks.lookup n with
    | some sink => lead sink
    | none => lead .nowhere
  | .read =>
    if target = "/dev/null" then
      set { s with input := .empty }
      return true
    else
      match s.files.content (s.directory.join ⟨target⟩) with
      | .ok c =>
        set { s with input := c.bytes }
        return true
      | .error fault => refused "open" fault
  | direction =>
    match fileSink s target with
    | .file p =>
      let kept := if direction = .append then (s.files.content p).toOption else none
      match s.files.write p (kept.getD (.text "")) with
      | .ok files =>
        set { s with files }
        lead (.file p)
      | .error fault => refused "create" fault
    | sink => lead sink

/-- The names that the shell goes by. -/
def isShell (name : String) : Bool := ["sh", "dash", "bash", "/bin/sh", "/bin/bash", "/bin/dash"].contains name

mutual

/-- Runs a script in the current job. -/
def script (source : List Char) : (fuel : Nat) → Act Unit
  | 0 => throw .killed
  | fuel + 1 =>
    match Command.ofScript? source with
    | some c => exec false c fuel
    | none => mistake "Syntax error"

/-- The expansion of a piece of a word. -/
def atoms (piece : Piece) : (fuel : Nat) → Act (List Atom)
  | 0 => throw .killed
  | fuel + 1 =>
    match piece with
    | .text cs quoted => return [.fixed cs (!quoted)]
    | .output source quoted => do
      let bytes ← captured (script source fuel)
      return [.ofText quoted (withoutLastBreaks (TextTool.textOf bytes).toList)]
    | .arithmetic source quoted => do
      let written ← single (((Token.quotedPieces? [] source (source.length + 1)).getD []).reverse) fuel
      let s ← getThe Job
      match Arithmetic.value? (fun name => ((s.valueOf name).bind fun v => v.trimAscii.toString.toInt?).getD 0) written with
      | some n => return [.ofText quoted (toString n).toList]
      | none => mistake "arithmetic expression"
    | .parameter ['@'] true => do
      let s ← getThe Job
      return (s.parameters.map fun a => [Atom.fixed a.toList false]).intersperse [Atom.gap] |>.flatten
    | .parameter source quoted => parameter source quoted fuel

/-- The expansion of a parameter. -/
def parameter (source : List Char) (quoted : Bool) : (fuel : Nat) → Act (List Atom)
  | 0 => throw .killed
  | fuel + 1 => do
    let some (name, edit) := Edit.ofSource? source | mistake "Bad substitution"
    let s ← getThe Job
    let value := s.valueOf name
    let lacks (empty : Bool) : Bool := value.isNone || (empty && value == some "")
    let own : List Atom := match value with
      | some v => [.ofText quoted v.toList]
      | none => []
    let other (word : List Char) : Act Word := do
      let some w := Edit.word? quoted word (word.length + 1) | mistake "Bad substitution"
      return w
    match edit with
    | .plain => return own
    | .length => return [.fixed (toString (value.getD "").utf8ByteSize).toList false]
    | .otherwise empty assigning word =>
      if lacks empty then
        let w ← other word
        if assigning then
          let text ← single w fuel
          assign name (String.ofList text)
          return [.ofText quoted text]
        else pieces w fuel
      else return own
    | .instead empty word => if lacks empty then return [] else pieces (← other word) fuel
    | .required empty word =>
      if lacks empty then mistake (name ++ ": " ++ String.ofList (← single (← other word) fuel)) else return own
    | .withoutStart longest pattern =>
      let m ← marked (← other pattern) fuel
      return [.ofText quoted (Glob.withoutStart longest (Glob.ofChars m) (value.getD "").toList)]
    | .withoutEnd longest pattern =>
      let m ← marked (← other pattern) fuel
      return [.ofText quoted (Glob.withoutEnd longest (Glob.ofChars m) (value.getD "").toList)]

def pieces (w : Word) : (fuel : Nat) → Act (List Atom)
  | 0 => throw .killed
  | fuel + 1 =>
    match w with
    | [] => return []
    | piece :: rest => do
      let first ← atoms piece fuel
      return first ++ (← pieces rest fuel)

/-- A word that stays one text, with its active characters marked. -/
def marked (w : Word) : (fuel : Nat) → Act Marked
  | 0 => throw .killed
  | fuel + 1 => return (← pieces w fuel).flatMap Atom.marked

def single (w : Word) : (fuel : Nat) → Act (List Char)
  | 0 => throw .killed
  | fuel + 1 => return (← marked w fuel).map Prod.fst

/-- The fields of words. -/
def fields (ws : List Word) : (fuel : Nat) → Act (List String)
  | 0 => throw .killed
  | fuel + 1 =>
    match ws with
    | [] => return []
    | w :: rest => do
      let found ← pieces w fuel
      let s ← getThe Job
      let own := if w = [.text [] true, .parameter ['@'] true] ∧ s.parameters = [] then []
        else (Atom.cut [] none found).flatMap (Marked.names s)
      return own ++ (← fields rest fuel)

/-- Opens redirections from the left up to the first that fails. -/
def openAll (rs : List Redirection) : (fuel : Nat) → Act Bool
  | 0 => throw .killed
  | fuel + 1 =>
    match rs with
    | [] => return true
    | r :: rest => do
      if ← openTarget r (String.ofList (← single r.target fuel)) then openAll rest fuel
      else return false

/-- Runs a step with redirections; afterwards output goes where it went before. -/
def redirected (rs : List Redirection) (step : Act Unit) : (fuel : Nat) → Act Unit
  | 0 => throw .killed
  | fuel + 1 => do
    let before ← getThe Job
    let isInput := rs.any fun r => r.descriptor == 0
    try
      if ← openAll rs fuel then step
    finally modifyThe Job fun s =>
      { s with sinks := before.sinks, input := if isInput then before.input else s.input }

def assignAll (assignments : List (String × Word)) : (fuel : Nat) → Act Unit
  | 0 => throw .killed
  | fuel + 1 =>
    match assignments with
    | [] => return
    | (name, w) :: rest => do
      assign name (String.ofList (← single w fuel))
      assignAll rest fuel

/-- Runs a command by its name. -/
def invoke (name : String) (arguments : List String) : (fuel : Nat) → Act Unit
  | 0 => throw .killed
  | fuel + 1 => do
    let s ← getThe Job
    match s.functions.lookup name with
    | some body =>
      set { s with parameters := arguments }
      tryCatch (exec false body fuel) fun
        | .returned n => settle n
        | other => throw other
      modifyThe Job fun now => { now with parameters := s.parameters }
    | none =>
      match Job.builtin? name arguments with
      | some step => step
      | none =>
        match name, arguments with
        | "eval", arguments => script (String.intercalate " " arguments).toList fuel
        | "command", name :: arguments => invoke name arguments fuel
        | "exec", name :: arguments => do
          invoke name arguments fuel
          throw (.exit (← getThe Job).status)
        | ".", file :: _ =>
          match s.files.readText (s.directory.join ⟨file⟩) with
          | .ok text => script text.toList fuel
          | .error fault => mistake (".: " ++ file ++ ": " ++ Desk.describe fault)
        | name, arguments =>
          if isShell name then isolated (shell arguments fuel)
          else
            match Job.utility? name with
            | some u => Job.runUtility u arguments
            | none => report 127 ("sh: 1: " ++ name ++ ": not found")

/-- Runs a shell with its arguments: options, then a script or the name of one. -/
def shell (arguments : List String) : (fuel : Nat) → Act Unit
  | 0 => throw .killed
  | fuel + 1 => do
    let s ← getThe Job
    match arguments with
    | [] => script (TextTool.textOf s.input).toList fuel
    | a :: rest =>
      if a.startsWith "-" ∧ 1 < a.length then
        if a.toList.contains 'e' then modifyThe Job fun s => { s with strict := true }
        if a.toList.contains 'c' then
          match rest with
          | [] => mistake "-c requires an argument"
          | source :: rest =>
            modifyThe Job fun s => { s with name := rest.head?.getD "sh", parameters := rest.drop 1 }
            script source.toList fuel
        else shell rest fuel
      else
        match s.files.readText (s.directory.join ⟨a⟩) with
        | .ok text =>
          modifyThe Job fun s => { s with name := a, parameters := rest }
          script text.toList fuel
        | .error _ => throw (.exit 2)

/-- Runs a command. A failure that is not looked at ends a strict script. -/
def exec (looked : Bool) (c : Command) : (fuel : Nat) → Act Unit
  | 0 => throw .killed
  | fuel + 1 => do
    let succeeded : Act Bool := return (← getThe Job).status == 0
    let insist : Act Unit := do
      let s ← getThe Job
      if s.strict && !looked && s.status != 0 then throw (.exit s.status)
    match c with
    | .simple assignments words rs =>
      match words with
      | [] =>
        settle 0
        assignAll assignments fuel
        redirected rs (pure ()) fuel
      | words =>
        match ← fields words fuel with
        | [] => redirected rs (assignAll assignments fuel) fuel
        | ["exec"] => discard (openAll rs fuel)
        | name :: arguments =>
          let before := (← getThe Job).vars
          assignAll assignments fuel
          redirected rs (invoke name arguments fuel) fuel
          if !assignments.isEmpty then modifyThe Job fun s => { s with vars := before }
      insist
    | .sequence items => sequence looked items fuel
    | .both left right =>
      exec true left fuel
      if ← succeeded then exec looked right fuel
    | .either left right =>
      exec true left fuel
      if !(← succeeded) then exec looked right fuel
    | .negated c =>
      exec true c fuel
      settle (if ← succeeded then 1 else 0)
    | .pipeline stages =>
      pipeline stages fuel
      insist
    | .subshell body =>
      isolated (exec looked body fuel)
      insist
    | .branch condition yes no =>
      exec true condition fuel
      if ← succeeded then exec looked yes fuel
      else
        settle 0
        exec looked no fuel
    | .loop wanted condition body => repetition looked wanted condition body 0 fuel
    | .each name words body =>
      let found ← match words with
        | some ws => fields ws fuel
        | none => pure (← getThe Job).parameters
      settle 0
      iteration looked name body found fuel
    | .select subject arms =>
      let text ← single subject fuel
      settle 0
      selection looked text arms fuel
    | .define name body =>
      modifyThe Job fun s => { s with functions := (name, body) :: s.functions, status := 0 }
    | .redirected body rs => redirected rs (exec looked body fuel) fuel

def sequence (looked : Bool) (items : List Command) : (fuel : Nat) → Act Unit
  | 0 => throw .killed
  | fuel + 1 =>
    match items with
    | [] => return
    | c :: rest => do
      exec looked c fuel
      sequence looked rest fuel

/-- Runs commands of which each reads what the one before it writes. -/
def pipeline (stages : List Command) : (fuel : Nat) → Act Unit
  | 0 => throw .killed
  | fuel + 1 =>
    match stages with
    | [] => return
    | [c] => isolated (exec true c fuel)
    | c :: rest => do
      let before := (← getThe Job).input
      let bytes ← captured (exec true c fuel)
      modifyThe Job fun s => { s with input := bytes }
      pipeline rest fuel
      modifyThe Job fun s => { s with input := before }

def repetition (looked wanted : Bool) (condition body : Command) (last : Nat) : (fuel : Nat) → Act Unit
  | 0 => throw .killed
  | fuel + 1 => do
    exec true condition fuel
    if ((← getThe Job).status == 0) == wanted then
      settle 0
      if ← turn (exec looked body fuel) then
        repetition looked wanted condition body (← getThe Job).status fuel
      else settle 0
    else settle last

def iteration (looked : Bool) (name : String) (body : Command) (values : List String) : (fuel : Nat) → Act Unit
  | 0 => throw .killed
  | fuel + 1 =>
    match values with
    | [] => return
    | v :: rest => do
      assign name v
      if ← turn (exec looked body fuel) then iteration looked name body rest fuel

/-- Runs the first arm of which a pattern stands for the text. -/
def selection (looked : Bool) (text : List Char) (arms : List (List Word × Command)) : (fuel : Nat) → Act Unit
  | 0 => throw .killed
  | fuel + 1 =>
    match arms with
    | [] => return
    | (patterns, body) :: rest => do
      let ms ← patterns.mapM fun w => marked w fuel
      if ms.any fun m => Glob.isMatch (Glob.ofChars m) text then exec looked body fuel
      else selection looked text rest fuel

end

/-- How long a script may run. -/
def patience : Nat := 20000

/-- Runs a step as a program. -/
def asProgram (step : Act Unit) : Program := fun invocation files =>
  let job : Job := { files, directory := invocation.directory, vars := invocation.environment }
  match StateT.run (ExceptT.run step) job with
  | (.ok (), s) => (.code s.status, s.files)
  | (.error (.exit n), s) | (.error (.returned n), s) => (.code n, s.files)
  | (.error .killed, s) => (.killed, s.files)
  | (.error _, s) => (.code s.status, s.files)

end Run

/-- The programs of the shell: itself and the utilities that its scripts use. -/
def programs : Programs := fun name =>
  if Run.isShell name then .ok fun invocation => Run.asProgram (Run.shell invocation.arguments Run.patience) invocation
  else
    match Job.utility? name with
    | some u => .ok fun invocation => Run.asProgram (Job.runUtility u invocation.arguments) invocation
    | none => .error .notFound

end Bitpress.Shell
