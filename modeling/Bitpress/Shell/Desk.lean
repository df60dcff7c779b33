import Bitpress.Files

/-!
The desk of a utility: the files, the directory it works in, what it reads, and
what it has written and reported so far.
-/

namespace Bitpress.Shell

structure Desk where
  directory : Location
  files : FileTree
  input : ByteArray := .empty
  output : ByteArray := .empty
  errors : String := ""
  status : Nat := 0
deriving Inhabited

/-- A program without control over the script that runs it: it gets arguments. -/
abbrev Utility := List String → StateM Desk Unit

namespace Desk

def locate (d : Desk) (name : String) : Location := d.directory.join ⟨name⟩

def say (bytes : ByteArray) : StateM Desk Unit := modify fun d => { d with output := d.output ++ bytes }

def sayText (s : String) : StateM Desk Unit := say s.toUTF8

def sayLine (s : String) : StateM Desk Unit := sayText (s ++ "\n")

def fail (status : Nat) (report : String) : StateM Desk Unit :=
  modify fun d => { d with status := max status d.status, errors := d.errors ++ report ++ "\n" }

/-- What a failure of the file system is called in reports. -/
def describe : FileFault → String
  | .notFound => "No such file or directory"
  | .alreadyExists => "File exists"
  | .notADirectory => "Not a directory"
  | .isADirectory => "Is a directory"
  | .directoryNotEmpty => "Directory not empty"
  | .permissionDenied => "Permission denied"
  | _ => "Invalid argument"

/-- Changes the files, or reports why they cannot be changed. -/
def onFiles (report : String) (change : FileTree → Except FileFault FileTree) : StateM Desk Unit := do
  match change (← get).files with
  | .ok files => modify fun d => { d with files }
  | .error fault => fail 1 (report ++ ": " ++ describe fault)

/-- What a file holds, or what is read if it is named by a hyphen. -/
def contents? (tool name : String) (status : Nat) : StateM Desk (Option ByteArray) := do
  let d ← get
  if name = "-" then return some d.input
  match d.files.content (d.locate name) with
  | .ok c => return some c.bytes
  | .error fault =>
    fail status (tool ++ ": " ++ name ++ ": " ++ describe fault)
    return none

/-- The arguments that begin with a hyphen, without it, and the others. -/
def divide (arguments : List String) : List String × List String :=
  let options := arguments.takeWhile fun a => a.length > 1 && a.startsWith "-" && a != "--"
  let rest := arguments.drop options.length
  (options.map fun a => String.ofList (a.toList.drop 1), if rest.head? = some "--" then rest.drop 1 else rest)

/-- Whether a letter is among the options. -/
def asks (options : List String) (c : Char) : Bool := options.any fun o => o.toList.contains c

end Desk

end Bitpress.Shell
