import Bitpress.Shell.Desk

/-! Utilities that copy, move, make and remove files. -/

namespace Bitpress.Shell.FileTool

open Desk (fail onFiles asks divide sayLine)

/-- Where a file goes: into a directory under its own name, else to the location itself. -/
def destinationOf (d : Desk) (source dest : String) : Location :=
  let p := d.locate dest
  if d.files.isDirectory p then
    match (d.locate source).fileName? with
    | some name => p.join ⟨name⟩
    | none => p
  else p

/-- Runs a step for each source, with its last argument as the destination. -/
def each (tool : String) (operands : List String) (step : String → Location → StateM Desk Unit) : StateM Desk Unit := do
  match operands.getLast?, operands.dropLast with
  | none, _ => fail 1 (tool ++ ": missing file operand")
  | some name, [] => fail 1 (tool ++ ": missing destination file operand after '" ++ name ++ "'")
  | some dest, sources => do
    if sources.length > 1 && !(← get).files.isDirectory ((← get).locate dest) then
      fail 1 (tool ++ ": target '" ++ dest ++ "': No such file or directory")
    else
      for source in sources do
        step source (destinationOf (← get) source dest)

def sameFile (d : Desk) (p q : Location) : Bool :=
  match d.files.canonical? p, d.files.canonical? q with
  | some a, some b => a == b
  | _, _ => false

def cp : Utility := fun arguments => do
  let (options, operands) := divide arguments
  each "cp" operands fun source dest => do
    let d ← get
    let from_ := d.locate source
    if sameFile d from_ dest then fail 1 ("cp: '" ++ source ++ "' and '" ++ dest.text ++ "' are the same file")
    else if d.files.isDirectory from_ then
      if asks options 'r' || asks options 'R' || asks options 'a' then
        onFiles "cp" fun t => do t.plant dest (← t.get from_)
      else fail 1 ("cp: -r not specified; omitting directory '" ++ source ++ "'")
    else onFiles ("cp: cannot stat '" ++ source ++ "'") fun t => do
      if dest.text = "/dev/null" then (t.get from_).map fun _ => t
      else t.copy from_ dest

def mv : Utility := fun arguments => do
  each "mv" (divide arguments).2 fun source dest => do
    let d ← get
    let from_ := d.locate source
    if sameFile d from_ dest then fail 1 ("mv: '" ++ source ++ "' and '" ++ dest.text ++ "' are the same file")
    else onFiles ("mv: cannot move '" ++ source ++ "'") fun t => do (← t.plant dest (← t.get from_)).remove from_

def rm : Utility := fun arguments => do
  let (options, operands) := divide arguments
  for name in operands do
    let d ← get
    let p := d.locate name
    if d.files.isDirectory p && !(asks options 'r' || asks options 'R') then
      fail 1 ("rm: cannot remove '" ++ name ++ "': Is a directory")
    else if d.files.isThere p || !asks options 'f' then
      onFiles ("rm: cannot remove '" ++ name ++ "'") fun t => t.remove p

def mkdir : Utility := fun arguments => do
  let (options, operands) := divide arguments
  for name in operands do
    let p := (← get).locate name
    onFiles ("mkdir: cannot create directory '" ++ name ++ "'") fun t => do
      if asks options 'p' then t.makeDirectory p
      else if t.isThere p then throw .alreadyExists
      else t.plant p .empty

def rmdir : Utility := fun arguments => do
  for name in (divide arguments).2 do
    let p := (← get).locate name
    onFiles ("rmdir: failed to remove '" ++ name ++ "'") fun t => do
      match ← t.get p with
      | .file _ => throw .notADirectory
      | .dir [] => t.remove p
      | .dir _ => throw .directoryNotEmpty

def touch : Utility := fun arguments => do
  for name in (divide arguments).2 do
    let p := (← get).locate name
    onFiles ("touch: cannot touch '" ++ name ++ "'") fun t => if t.isThere p then .ok t else t.write p (.text "")

/-- Files have no modes here, so that only a missing one makes a difference. -/
def chmod : Utility := fun arguments => do
  for name in (divide arguments).2.drop 1 do
    let p := (← get).locate name
    onFiles ("chmod: cannot access '" ++ name ++ "'") fun t => (t.get p).map fun _ => t

/-- Lists names, one a line. -/
def ls : Utility := fun arguments => do
  let (options, operands) := divide arguments
  for name in (if operands = [] then ["."] else operands) do
    let d ← get
    match d.files.get (d.locate name) with
    | .ok (.file _) => sayLine name
    | .ok (.dir entries) =>
      let names := ((entries.map Prod.fst).filter fun n => asks options 'a' || n.toList.head? != some '.').mergeSort Text.inOrder
      for n in names do
        sayLine n
    | .error fault => fail 2 ("ls: cannot access '" ++ name ++ "': " ++ Desk.describe fault)

def withoutSlashes (s : String) : List Char :=
  match (s.toList.reverse.dropWhile (· == '/')).reverse with
  | [] => if s = "" then [] else ['/']
  | cs => cs

/-- The last part of a path, without a suffix if one is given. -/
def basename : Utility
  | [] => fail 1 "basename: missing operand"
  | name :: more => do
    let cs := withoutSlashes name
    let last := if cs = ['/'] then cs else (cs.reverse.takeWhile (· != '/')).reverse
    let suffix := (more.head?.getD "").toList
    let kept := if last ≠ suffix ∧ suffix.reverse.isPrefixOf last.reverse then last.take (last.length - suffix.length) else last
    sayLine (String.ofList kept)

/-- All but the last part of a path. -/
def dirname : Utility
  | [] => fail 1 "dirname: missing operand"
  | name :: _ => do
    let before := ((withoutSlashes name).reverse.dropWhile (· != '/')).reverse
    sayLine (if before = [] then "." else String.ofList (withoutSlashes (String.ofList before)))

end Bitpress.Shell.FileTool
