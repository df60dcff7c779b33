import Bitpress.Document.Markdown
import Bitpress.Error
import Bitpress.Json.Reader
import Bitpress.Toml.Reader
import Bitpress.Tree.Interpolate

/-!
Registry documents as text. Every format is read as a data tree first; variables
in its texts are replaced, and the tree is given the shape of a document.
-/

/-! ### Formats

The formats of registry files. A file's extension names its format. -/

namespace Bitpress

inductive DocumentFormat
  | yaml
  | json
  | toml
  | markdown
deriving DecidableEq, Inhabited

namespace DocumentFormat

/-- The format of an extension; dots before it and the case of its letters do not matter. -/
def ofExtension (written : String) : Outcome DocumentFormat :=
  let name := String.ofList ((written.toList.dropWhile (· == '.')).map Char.toLower)
  match name with
  | "yaml" => .ok .yaml
  | "yml" => .ok .yaml
  | "json" => .ok .json
  | "toml" => .ok .toml
  | "md" => .ok .markdown
  | "markdown" => .ok .markdown
  | _ => .error (.unsupportedFormat name)

/-- The format of a file. -/
def ofLocation (p : Location) : Outcome DocumentFormat := ofExtension (p.extension?.getD "")

/-- The usual extension of a format. -/
def extension : DocumentFormat → String
  | yaml => "yaml"
  | json => "json"
  | toml => "toml"
  | markdown => "md"

end DocumentFormat

end Bitpress

/-! ### Reading and writing -/

namespace Bitpress.Document

/-- Reads the tree of a text. -/
def readTree (format : DocumentFormat) (text : String) : Except DocumentFault Tree :=
  match format with
  | .yaml => readYaml text
  | .json =>
    match Json.read? text with
    | some t => .ok t
    | none => .error .malformed
  | .toml => Toml.read text
  | .markdown => Markdown.read text

/-- The document of a tree; null is the empty document. -/
def ofTree (vars : Variables) (t : Tree) : Except DocumentFault RegistryDocument :=
  (RegistryDocument.decode (if t.isNull then .map [] else t.interpolate vars)).mapError .decode

/-- Reads a text in a format; `path` names it in errors. -/
def parse (format : DocumentFormat) (path : String) (vars : Variables) (text : String) :
    Outcome RegistryDocument :=
  ((readTree format text).bind (ofTree vars)).mapError (.registryParse path)

/-- Writes a document in a format. TOML is only read. -/
def print (format : DocumentFormat) (d : RegistryDocument) : Outcome String :=
  match format with
  | .yaml => .ok (Yaml.write d.encode)
  | .json => .ok (Json.indented 0 d.encode ++ "\n")
  | .markdown => .ok (Markdown.write d)
  | .toml => .error (.unsupportedFormat "toml (dump)")

end Bitpress.Document
