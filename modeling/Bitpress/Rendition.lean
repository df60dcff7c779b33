import Bitpress.Store
import Bitpress.Template.Render

/-!
Renditions: the texts of targets. The template of a target is a file; other
templates that it refers to lie in the same directory or below.
-/

namespace Bitpress

namespace Renderer

/-- Whether a name stays below the directory of the template. -/
def staysBelow (name : String) : Bool :=
  (Text.split '/' name).all fun part => !Text.startsWith part "." && !Text.contains part "\\"

/-- The text of a template by its name in a directory. -/
def loadFrom (files : FileTree) (directory : Location) (name : String) :
    Except TemplateFault String :=
  if !staysBelow name then .error .templateNotFound
  else
    match files.readText (directory.join ⟨String.intercalate "/" ((Text.split '/' name).filter (· != ""))⟩) with
    | .ok text => .ok text
    | .error .notFound => .error .templateNotFound
    | .error _ => .error .invalidOperation

/-- Renders a template file. -/
def renderFile (r : Renderer) (files : FileTree) (p : Location) (context : Context) :
    Outcome String := do
  let refuse (reason : String) : Outcome String := .error (.templateLoad p.text reason)
  if !files.isFile p then refuse "file not found"
  else
    let name := p.fileName?.getD ""
    let load := loadFrom files (p.parent?.getD ⟨"."⟩)
    match load name >>= fun text => (Template.Script.parse text).map fun _ => text with
    | .error fault => refuse fault.message
    | .ok text =>
      (Template.Run.render Template.roomy ⟨r, load⟩ name text context).mapError .templateRender

end Renderer

/-- The text of a target. -/
def Target.text (t : Target) (files : FileTree) (r : Renderer) : Outcome String :=
  Outcome.within ("could not render target \u0060" ++ Element.label t ++ "\u0060")
    (r.renderFile files t.template t.context)

end Bitpress
