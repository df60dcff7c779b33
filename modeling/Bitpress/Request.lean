import Bitpress.CommandLine.Form
import Bitpress.CommandLine.Reader
import Bitpress.Location

/-!
What the program is asked for: the forms of its command line, and the request that
is read from its arguments.
-/

namespace Bitpress

open CommandLine

inductive Action
  | build (path : Location) (tex noPdf watch : Bool) (buildDir : Option Location)
  | list (path : Location)
  | convert (source : Location) (out : Option Location) (extension : Option String)
deriving DecidableEq

structure Request where
  /-- The directory that the configuration is read from, if it is not the working directory. -/
  root : Option Location := none
  verbose : Bool := false
  action : Option Action
deriving DecidableEq

namespace Request

def rootFlag : Flag :=
  { name := "root", letter := some 'r', value := some "ROOT"
    help := "Directory \u0060bits.toml\u0060 (or \u0060.bitsrc\u0060) is read from. Defaults to the current directory" }

def verboseFlag : Flag := { name := "verbose", letter := some 'v', help := "Enable verbose output" }

def colorFlag : Flag := { name := "no-color", help := "Disable colored output" }

def helpFlag : Flag := { name := "help", letter := some 'h', help := "Print help" }

def pathOperand : Operand := ⟨"PATH", "Registry file, or a directory containing an \u0060index.yml\u0060"⟩

def buildForm : Form where
  call := "bits build"
  about := "Render and compile every target of a registry"
  details := some ("Render and compile every target of a registry.\n\nEach target's template is rendered with its " ++
    "resolved context and handed to the LaTeX compiler. Unchanged targets are skipped when watching.")
  operands := [pathOperand]
  flags := [rootFlag,
    { name := "tex", help := "Also write the rendered \u0060.tex\u0060 next to each destination" },
    { name := "no-pdf", help := "Skip the LaTeX compiler. Combine with \u0060--tex\u0060 to only render" },
    verboseFlag,
    { name := "build-dir", value := some "BUILD_DIR", help := "Persistent work directory for the compiler" },
    colorFlag,
    { name := "watch", help := "Rebuild whenever the registry, one of its dependencies or a template changes" },
    helpFlag]

def listForm : Form where
  call := "bits list"
  about := "List the bits, constants and targets of a registry"
  operands := [pathOperand]
  flags := [rootFlag, verboseFlag, colorFlag, helpFlag]

def convertForm : Form where
  call := "bits convert"
  about := "Rewrite a registry in another format"
  details := some ("Rewrite a registry in another format.\n\nThe output format follows the extension of " ++
    "\u0060--out\u0060, or \u0060--fmt\u0060 when writing next to the source. \u0060$\x7bname\x7d\u0060 variables are kept as written.")
  operands := [⟨"SRC", "Registry file to read"⟩]
  flags := [{ name := "out", letter := some 'o', value := some "OUT", help := "File to write" }, rootFlag,
    { name := "fmt", value := some "FMT", help := "Format to write next to the source file"
      choices := [⟨"yaml", none⟩, ⟨"json", none⟩,
        ⟨"md", some "Markdown with YAML frontmatter and one fenced block per fragment"⟩] },
    verboseFlag, colorFlag, helpFlag]
  rivals := [("out", "fmt")]

def commandForms : List (String × Form) :=
  [("build", buildForm), ("list", listForm), ("convert", convertForm)]

def form : Form where
  call := "bits"
  about := "Build documents from registries of reusable LaTeX bits."
  details := some ("bits compiles registries of reusable LaTeX fragments (\"bits\"), constants and targets into " ++
    "documents.\n\nA registry is a YAML, JSON, TOML or markdown file. Targets select bits with queries, bind them to " ++
    "presets and render a template with the result.\n\nQuick start:\n  bits list registry.yaml     Show bits, constants " ++
    "and targets\n  bits build registry.yaml    Render and compile every target\n  bits convert registry.yaml --fmt md")
  flags := [rootFlag, verboseFlag, colorFlag, helpFlag, { name := "version", letter := some 'V', help := "Print version" }]
  commands := commandForms.map (fun c => (c.1, c.2.about)) ++
    [("help", "Print this message or the help of the given subcommand(s)")]

def versionText : String := "bits_cli 0.4.0\n"

/-- What a command line comes to if it is no request. -/
inductive Refusal
  /-- A text that was asked for. -/
  | shown (text : String)
  | mistaken (m : Mistake)

def refusalOf (form : Form) : Stop → Refusal
  | .mistake m => .mistaken m
  | .help long => .shown (form.help long)
  | .version => .shown versionText

/-- The help for the commands named after `help`. -/
def helpFor : List String → Refusal
  | [] => .shown (form.help true)
  | name :: _ =>
    match commandForms.lookup name with
    | some f => .shown (f.help true)
    | none => .mistaken (.unknownCommand name)

def location? (g : Given) (name : String) : Option Location := (g.value? name).map Location.mk

def actionOf (name : String) (g : Given) : Option Action :=
  let path : Location := ⟨g.operands.head?.getD ""⟩
  match name with
  | "build" => some (.build path (g.has "tex") (g.has "no-pdf") (g.has "watch") (location? g "build-dir"))
  | "list" => some (.list path)
  | "convert" => some (.convert path (location? g "out") (g.value? "fmt"))
  | _ => none

/-- Reads the arguments of the program. Options that every command has count wherever they stand, and
those after the name of the command count more. -/
def ofArguments (arguments : List String) : Except Refusal Request := do
  let (top, command) ← (({} : Given).read form false arguments).mapError (refusalOf form)
  match command with
  | none =>
    let top ← (top.finish form).mapError (refusalOf form)
    return { root := location? top "root", verbose := top.has "verbose", action := none }
  | some ("help", names) => throw (helpFor names)
  | some (name, rest) =>
    let own := (commandForms.lookup name).getD form
    let (g, _) ← (({} : Given).read own false rest).mapError (refusalOf own)
    let g ← (g.finish own).mapError (refusalOf own)
    let top ← (top.finish form).mapError (refusalOf form)
    return { root := location? g "root" <|> location? top "root"
             verbose := g.has "verbose" || top.has "verbose"
             action := actionOf name g }

end Request

end Bitpress
