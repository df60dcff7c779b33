import Bitpress.Config
import Bitpress.Files
import Bitpress.Text.Basic
import Bitpress.Text.Cut

/-!
Compilation: a rendered text becomes a document. The text is put into a work
directory and the engine is run on it; the document it leaves there is copied to
its destination. A text that was the last to be compiled to a destination is not
compiled again. What happened to the files before a failure stays.
-/

/-! ### Logs

Logs of a document compiler. An exclamation mark and a blank report an error, and
the rest of the line says what it is. Reports of the language stand before those
of a package, and these before all others. Of each kind the first report counts,
if it says anything. -/

namespace Bitpress.CompilerLog

def restOfLine (cs : List Char) : List Char := cs.takeWhile fun c => c != '\n' && c != '\r'

/-- What follows the last `word`. -/
def afterLast? (word : List Char) : List Char → Option (List Char)
  | [] => Text.after? word []
  | c :: cs =>
    match afterLast? word cs with
    | some rest => some rest
    | none => Text.after? word (c :: cs)

/-- What follows the first `word`, up to the end of its line. -/
def lineAfter? (word : String) (log : List Char) : Option (List Char) :=
  (Text.cutAt? word.toList log).map fun cut => restOfLine cut.2

def languageError? (log : List Char) : Option (List Char) := lineAfter? "! LaTeX Error: " log

/-- The first line on which a package reports an error, after the last word that says so. -/
def packageError? : List Char → Option (List Char)
  | [] => none
  | c :: cs =>
    match (Text.after? "! Package ".toList (c :: cs)).bind fun rest =>
        afterLast? " Error: ".toList (restOfLine rest) with
    | some message => some message
    | none => packageError? cs

def anyError? (log : List Char) : Option (List Char) := lineAfter? "! " log

/-- A report without the blanks around it, unless it is blank. -/
def spoken? (message : List Char) : Option String :=
  let trimmed := Text.trimChars message
  if trimmed = [] then none else some (String.ofList trimmed)

/-- The report of a log that says most. -/
def error? (log : String) : Option String :=
  [languageError?, packageError?, anyError?].findSome? fun kind => (kind log.toList).bind spoken?

end Bitpress.CompilerLog

/-! ### Compilations -/

namespace Bitpress

/-- The files that were written for one target. -/
structure Artifact where
  pdf : Option Location := none
  tex : Option Location := none
  /-- The text is the last that was compiled to this destination, so the engine did not run. -/
  skipped : Bool := false
deriving DecidableEq, Inhabited

/-- What compilations work on. -/
structure Workshop where
  files : FileTree
  /-- The text last compiled to each destination. -/
  compiled : List (Location × String) := []
deriving Inhabited

/-- A step of a compilation. -/
abbrev WorkshopM (α : Type) := ExceptT Error (StateM Workshop) α

namespace Workshop

def compiled? (w : Workshop) (dest : Location) : Option String :=
  (w.compiled.find? fun e => e.1.same dest).map Prod.snd

def remember (w : Workshop) (dest : Location) (text : String) : Workshop :=
  { w with compiled := (dest, text) :: w.compiled.filter fun e => !e.1.same dest }

def onFiles (change : FileTree → Except FileFault FileTree) : WorkshopM Unit := do
  let w ← getThe Workshop
  match change w.files with
  | .ok files => set { w with files }
  | .error fault => throw (.file fault)

/-- Copies a file into a directory that is made if it has to be. -/
def deliver (source dest : Location) : WorkshopM Unit := do
  onFiles fun t => t.makeParent dest
  onFiles fun t => t.copy source dest

/-- Writes the text beside the destination, unless it is there already. -/
def writeText (tex : Location) (text : String) : WorkshopM Unit := do
  match (← getThe Workshop).files.readText tex with
  | .ok old => if old = text then return
  | .error _ => pure ()
  onFiles fun t => t.makeParent tex
  onFiles fun t => t.write tex (.text text)

/-- Makes an empty directory, in place of one that is there. -/
def makeFresh (directory : Location) : WorkshopM Unit := do
  let files := (← getThe Workshop).files
  if files.isDirectory directory then onFiles fun t => t.remove directory
  else if files.isThere directory then throw (.file .notADirectory)
  onFiles fun t => t.makeDirectory directory

end Workshop

/-- An engine with the programs that it is one of. -/
structure Compiler where
  engine : Engine
  programs : Programs
  environment : Table String := []

namespace Compiler

open Workshop (onFiles deliver)

/-- The work directory of a compilation that names no other; it does not outlive it. -/
def scratch : Location := ⟨"/tmp/bitpress"⟩

/-- Where the engine's own files of a destination are kept. -/
def keptIn (dest : Location) (o : OutputOptions) : Location :=
  ((o.intermediatesDir <|> dest.parent?).getD ⟨""⟩).join ⟨dest.stem?.getD ""⟩

/-- Keeps the files of the work directory. -/
def keepIntermediates (work dest : Location) (o : OutputOptions) : WorkshopM Unit := do
  let kept := keptIn dest o
  onFiles fun t => t.makeDirectory kept
  for name in (← getThe Workshop).files.fileNames work do
    onFiles fun t => t.copy (work.join ⟨name⟩) (kept.join ⟨name⟩)

/-- Runs the engine on a file of the work directory. -/
def execute (c : Compiler) (work : Location) (name : String) : WorkshopM ExitStatus := do
  match c.programs c.engine.command with
  | .error fault => throw (.file fault)
  | .ok program =>
    let environment :=
      if c.environment.hasKey "TEXMFVAR" then c.environment else c.environment.put "TEXMFVAR" work.text
    modifyGetThe Workshop fun w =>
      let (status, files) := program ⟨c.engine.args ++ [name], work, environment⟩ w.files
      (status, { w with files })

/-- What a failed run is reported as: the error in its log, else its status. -/
def reportOf (files : FileTree) (log : Location) (status : ExitStatus) : String :=
  match (files.readText log).toOption.bind CompilerLog.error? with
  | some message => message
  | none => "process exited with status " ++ status.text

/-- Saves the log of a failed run, if there is one, beside the destination. -/
def saveLog (log dest : Location) (stem : String) : WorkshopM (Option Location) := do
  if (← getThe Workshop).files.isFile log then
    let saved := (dest.parent?.getD ⟨""⟩).join ⟨stem ++ "_latex_error.log"⟩
    deliver log saved
    return some saved
  else return none

/-- Makes the document of a text in a work directory and copies it to its destination. -/
def make (c : Compiler) (work : Location) (stem text : String) (dest : Location) (o : OutputOptions) :
    WorkshopM Unit := do
  let name := stem ++ ".tex"
  onFiles fun t => t.write (work.join ⟨name⟩) (.text text)
  let status ← c.execute work name
  if status.succeeded then
    deliver (work.join ⟨stem ++ ".pdf"⟩) dest
    if o.keep = .all then keepIntermediates work dest o
  else
    let log := work.join ⟨stem ++ ".log"⟩
    let report := reportOf (← getThe Workshop).files log status
    let saved ← saveLog log dest stem
    if o.keep ≠ .none then keepIntermediates work dest o
    throw (.compile "LaTeX compilation failed" report saved)

/-- Makes the document in the configured directory, or in one that is removed afterwards. -/
def makeSomewhere (c : Compiler) (stem text : String) (dest : Location) (o : OutputOptions) :
    WorkshopM Unit := do
  match o.buildDir with
  | some directory =>
    let work := directory.join ⟨stem⟩
    Workshop.makeFresh work
    c.make work stem text dest o
  | none =>
    Workshop.makeFresh scratch
    try c.make scratch stem text dest o
    finally modifyThe Workshop fun w => { w with files := (w.files.remove scratch).toOption.getD w.files }

/-- Compiles a text to its destination. -/
def compile (c : Compiler) (text : String) (dest : Location) (o : OutputOptions) :
    WorkshopM Artifact := do
  let tex := if o.tex then some (dest.withExtension "tex") else none
  if let some p := tex then Workshop.writeText p text
  if !o.pdf then return { tex }
  if (← getThe Workshop).compiled? dest = some text then return { pdf := some dest, tex, skipped := true }
  c.makeSomewhere (dest.stem?.getD "document") text dest o
  modifyThe Workshop fun w => w.remember dest text
  return { pdf := some dest, tex }

end Compiler

end Bitpress
