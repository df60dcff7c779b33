import Bitpress.Error
import Bitpress.Text.Utf8

/-!
A tree of files. A location is followed from the root part by part, and every
part on the way has to be a directory that is there. All operations are on
absolute locations.
-/

namespace Bitpress

/-- What a file holds: text, or bytes that are no text. -/
inductive FileContent
  | text (s : String)
  | binary (bytes : ByteArray)
deriving Inhabited

namespace FileContent

def ofBytes (bytes : ByteArray) : FileContent :=
  match String.fromUTF8? bytes with
  | some s => .text s
  | none => .binary bytes

def bytes : FileContent → ByteArray
  | text s => s.toUTF8
  | binary bytes => bytes

/-- The text of a file, unless its bytes are no text. -/
def text? : FileContent → Option String
  | text s => some s
  | binary _ => none

/-- The text of a file, with replacement characters for what is no text. -/
def readable : FileContent → String
  | text s => s
  | binary bytes => String.ofList (Text.charsOfBytes bytes.toList)

end FileContent

inductive FileTree
  | file (content : FileContent)
  | dir (entries : List (String × FileTree))
deriving Inhabited

namespace FileTree

def empty : FileTree := .dir []

def isDir : FileTree → Bool
  | file _ => false
  | dir _ => true

/-- What stands in a directory. -/
def entries : FileTree → Table FileTree
  | file _ => []
  | dir entries => entries

/-- The file or directory at the end of a list of names. -/
def at? (t : FileTree) : List String → Option FileTree
  | [] => some t
  | name :: rest =>
    match t with
    | file _ => none
    | dir entries =>
      match Table.valueAt? entries name with
      | some inner => inner.at? rest
      | none => none

/-- Changes what stands at the end of a list of names, whose directories are all there. -/
def changeAt (change : Option FileTree → Option FileTree) (t : FileTree) : List String → FileTree
  | [] => (change (some t)).getD t
  | [name] =>
    match t with
    | file c => file c
    | dir entries =>
      match change (Table.valueAt? entries name) with
      | some new => dir (Table.put entries name new)
      | none => dir (Table.without entries name)
  | name :: next :: rest =>
    match t with
    | file c => file c
    | dir entries =>
      match Table.valueAt? entries name with
      | some inner => dir (Table.put entries name (changeAt change inner (next :: rest)))
      | none => dir entries

/-- Follows the parts of a location. The names that are passed, in reverse, lead to a directory. -/
def follow (t : FileTree) (passed : List String) : List Location.Part → Except FileFault (List String)
  | [] => .ok passed.reverse
  | .root :: rest => follow t [] rest
  | .current :: rest => follow t passed rest
  | part :: rest =>
    match t.at? passed.reverse with
    | none => .error .notFound
    | some (file _) => .error .notADirectory
    | some (dir _) =>
      match part with
      | .name s => follow t (s :: passed) rest
      | _ => follow t (passed.drop 1) rest

/-- The names that lead to a location; the last one need not be there. What is spelled as a directory
is no file. -/
def routeTo (t : FileTree) (p : Location) : Except FileFault (List String) :=
  if p.isEmpty then .error .notFound
  else
    match follow t [] p.parts with
    | .ok route =>
      if p.endsOpen && (t.at? route matches some (file _)) then .error .notADirectory else .ok route
    | .error fault => .error fault

/-- What stands at a location. -/
def get (t : FileTree) (p : Location) : Except FileFault FileTree := do
  match t.at? (← t.routeTo p) with
  | some found => return found
  | none => throw .notFound

def isFile (t : FileTree) (p : Location) : Bool := (t.get p) matches .ok (file _)

def isDirectory (t : FileTree) (p : Location) : Bool := (t.get p) matches .ok (dir _)

def isThere (t : FileTree) (p : Location) : Bool := (t.get p) matches .ok _

/-- The location without detours, if something stands there. -/
def canonical? (t : FileTree) (p : Location) : Option Location :=
  match t.routeTo p with
  | .ok route => if (t.at? route).isSome then some (.ofRoute route) else none
  | .error _ => none

def content (t : FileTree) (p : Location) : Except FileFault FileContent := do
  match ← t.get p with
  | file c => return c
  | dir _ => throw .isADirectory

/-- The text of a file. -/
def readText (t : FileTree) (p : Location) : Except FileFault String := do
  match (← t.content p).text? with
  | some s => return s
  | none => throw .invalidData

/-- Writes a file into a directory that is there. -/
def write (t : FileTree) (p : Location) (c : FileContent) : Except FileFault FileTree := do
  let route ← t.routeTo p
  match t.at? route with
  | some (dir _) => throw .isADirectory
  | _ => if p.endsOpen then throw .isADirectory else return t.changeAt (fun _ => some (file c)) route

/-- Puts a file or a directory with all it holds into a directory that is there. -/
def plant (t : FileTree) (p : Location) (new : FileTree) : Except FileFault FileTree := do
  return t.changeAt (fun _ => some new) (← t.routeTo p)

/-- Makes the directories on the way along the parts of a location. The names passed so far are
reversed. -/
def makeDirs (t : FileTree) (passed : List String) : List Location.Part → Except FileFault FileTree
  | [] => .ok t
  | .root :: rest => makeDirs t [] rest
  | .current :: rest => makeDirs t passed rest
  | .parent :: rest => makeDirs t (passed.drop 1) rest
  | .name s :: rest =>
    let here := (s :: passed).reverse
    match t.at? here with
    | some (dir _) => makeDirs t (s :: passed) rest
    | some (file _) => .error (if rest.isEmpty then .alreadyExists else .notADirectory)
    | none => makeDirs (t.changeAt (fun _ => some empty) here) (s :: passed) rest

/-- Makes a directory and those that it lies in. -/
def makeDirectory (t : FileTree) (p : Location) : Except FileFault FileTree := t.makeDirs [] p.parts

/-- Makes the directory that a file is to lie in. -/
def makeParent (t : FileTree) (p : Location) : Except FileFault FileTree :=
  match p.parent? with
  | some parent => t.makeDirectory parent
  | none => .ok t

/-- Removes a file or a whole directory. -/
def remove (t : FileTree) (p : Location) : Except FileFault FileTree := do
  let route ← t.routeTo p
  match t.at? route with
  | some _ => return t.changeAt (fun _ => none) route
  | none => throw .notFound

/-- Copies a file. The destination is emptied before anything is read, so that a file which is
copied onto itself ends up empty. -/
def copy (t : FileTree) (source dest : Location) : Except FileFault FileTree := do
  match ← t.get source with
  | file _ =>
    let emptied ← t.write dest (.text "")
    emptied.write dest (← emptied.content source)
  | dir _ => throw .invalidInput

/-- The names of the files that lie in a directory. -/
def fileNames (t : FileTree) (p : Location) : List String :=
  match t.get p with
  | .ok (dir entries) => (entries.filter fun e => !e.2.isDir).map Prod.fst
  | _ => []

mutual

/-- All files below a directory, with the names that lead to them. -/
def files (passed : List String) : FileTree → List (List String × FileContent)
  | file c => [(passed, c)]
  | dir entries => entryFiles passed entries

def entryFiles (passed : List String) : List (String × FileTree) → List (List String × FileContent)
  | [] => []
  | (name, t) :: rest => files (passed ++ [name]) t ++ entryFiles passed rest

end

end FileTree

/-- A result of the file system as a result of the library. -/
def Outcome.ofFiles (r : Except FileFault α) : Outcome α := r.mapError .file

end Bitpress

/-! ### Programs

Programs that work on files. A program gets its arguments, the directory that it is
started in and its environment, and leaves a status and the files as they are then.
What programs there are is a parameter of everything that starts one. -/

namespace Bitpress

/-- How a program ended. -/
inductive ExitStatus
  | code (n : Nat)
  | killed
deriving DecidableEq, Inhabited

def ExitStatus.succeeded : ExitStatus → Bool
  | code n => n == 0
  | killed => false

/-- The status as a word. -/
def ExitStatus.text : ExitStatus → String
  | code n => toString n
  | killed => "unknown"

structure Invocation where
  arguments : List String := []
  directory : Location
  environment : Table String := []

abbrev Program := Invocation → FileTree → ExitStatus × FileTree

/-- The programs that can be started, by name. -/
abbrev Programs := String → Except FileFault Program

end Bitpress
