import Bitpress.Context

/-!
Targets: documents to be built, with a template, the variables for it and a
destination.
-/

namespace Bitpress

structure Target where
  info : ElementInfo
  template : Location
  context : Context
  dest : Location

namespace Target

def ownField? (t : Target) (key : String) : Option Tree :=
  if key = "template" then some (.str t.template.text)
  else if key = "dest" then some (.str t.dest.text)
  else none

instance : Element Target := ⟨Target.info, Target.ownField?⟩

/-- Where the document of a target goes: a place with the extension `pdf` is taken as it is, a place
without extension is a directory, in which the file is named for the registry and the target. -/
def destination (dest source : Location) (name : String) : Outcome Location :=
  match dest.extension? with
  | none => .ok (dest.join ⟨source.stem?.getD "" ++ "-" ++ name ++ ".pdf"⟩)
  | some extension =>
    if Text.sameLetters extension "pdf" then .ok dest
    else .error (.unsupportedDestination dest.text)

end Target

end Bitpress
