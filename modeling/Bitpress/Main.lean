import Bitpress.Report
import Bitpress.Shell.Run

/-!
The program: it reads the files below the working directory and below the places
that its arguments name, does what it is asked for, and writes back what changed.
-/

namespace Bitpress

/-- The variables of the environment that make a difference. -/
def knownVariables : List String :=
  ["HOME", "TEXMFVAR", "BITS_TEMPLATE", "BITS_DEST", "BITS_BUILD_DIR", "BITS_LATEX"]

def readEnvironment : IO (Table String) :=
  knownVariables.filterMapM fun name => return (← IO.getEnv name).map (name, ·)

/-- Reads a file, or a directory with all it holds. -/
partial def readTree (entry : IO.FS.DirEntry) : IO FileTree := do
  if ← entry.path.isDir then
    let entries ← entry.path.readDir
    return .dir (← entries.toList.mapM fun e => return (e.fileName, ← readTree e))
  else return .file (.ofBytes (← IO.FS.readBinFile entry.path))

/-- The directories of which the files are read: the working directory, and those named by a request. -/
def placesOf (directory : Location) (r : Request) : List Location :=
  let path := match r.action with
    | some (.build path ..) | some (.list path) | some (.convert path ..) => (directory.join path).parent?.toList
    | none => []
  directory :: (r.root.toList.map directory.join) ++ path

/-- Reads the files below some directories. -/
def readFiles (places : List Location) : IO FileTree :=
  places.foldlM (fun files p => do
    let entry : IO.FS.DirEntry := { root := p.text, fileName := "" }
    if files.isThere p || !(← entry.path.isDir) then return files
    let tree ← readTree entry
    return ((files.makeParent p >>= fun files => files.plant p tree).toOption).getD files) FileTree.empty

/-- Writes the files that are new or changed, and removes those that are gone. -/
def writeBack (before after : FileTree) : IO Unit := do
  for (names, content) in after.files [] do
    let p := Location.ofRoute names
    let same := ((before.content p).toOption.map fun c => c.bytes.toList == content.bytes.toList).getD false
    if !same then
      if let some parent := p.parent? then IO.FS.createDirAll parent.text
      IO.FS.writeBinFile p.text content.bytes
  for (names, _) in before.files [] do
    let p := Location.ofRoute names
    if !after.isThere p then IO.FS.removeFile p.text

/-- Carries out a request and shows what came of it. -/
def perform (s : Surroundings) (arguments : List String) : IO Report := do
  let report := s.run arguments
  writeBack s.files report.files
  for line in report.output do
    IO.println line
  for line in report.errors do
    IO.eprintln line
  return report

/-- Builds again whenever a watched file has changed. -/
partial def watch (s : Surroundings) (places : List Location) (watched : Surroundings → WatchSet)
    (arguments : List String) : IO Unit := do
  IO.sleep 200
  let files ← readFiles places
  let contentOf (t : FileTree) (p : Location) : Option (List UInt8) := (t.content p).toOption.map fun c => c.bytes.toList
  if (watched s).files.any fun p => contentOf files p != contentOf s.files p then
    IO.println "\nFile change detected, rebuilding..."
    let report ← perform { s with files } arguments
    watch { s with files := report.files, compiled := report.compiled } places watched arguments
  else watch s places watched arguments

end Bitpress

open Bitpress in
def main (arguments : List String) : IO UInt32 := do
  let directory : Location := ⟨(← IO.currentDir).toString⟩
  let request := (Request.ofArguments arguments).toOption
  let places := (request.map (placesOf directory)).getD []
  let s : Surroundings := ⟨← readFiles places, directory, ← readEnvironment, Shell.programs, []⟩
  let report ← perform s arguments
  if let some ⟨root, _, some (.build path _ _ true _)⟩ := request then
    IO.println "\nWatching for file changes... (press Ctrl+C to stop)"
    watch { s with files := report.files, compiled := report.compiled } places
      (fun s => s.watchSet (root.getD directory) path) arguments
  return report.code.toUInt32
