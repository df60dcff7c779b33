import Bitpress.Declaration.Codec
import Bitpress.Markdown.Outline
import Bitpress.Yaml.Writer

/-!
Registries as Markdown. Lines of three dashes cut the text into sections. The
first one after the opening line is the header of the registry, and each of the
others is a bit: its header, and its template text in code blocks. A bit with
several blocks names its fragments behind the fences.
-/

namespace Bitpress.Document

/-- Reads YAML text; blank text is null. -/
def readYaml (text : String) : Except DocumentFault Tree :=
  if Text.blankText text then .ok .null else Yaml.read text

namespace Markdown

def sectionMark : String := "---"

def sourceLanguage : String := "latex"

/-- A line that may open or close a fence: its mark, how often it is repeated, and whether nothing
follows. -/
structure FenceLine where
  mark : Char
  length : Nat
  bare : Bool

def fenceLine? (line : String) : Option FenceLine :=
  let indent := line.toList.takeWhile (· == ' ')
  match line.toList.drop indent.length with
  | c :: rest =>
    let n := ((c :: rest).takeWhile (· == c)).length
    if 3 < indent.length || !(c == '\u0060' || c == '~') || n < 3 then none
    else some ⟨c, n, ((c :: rest).drop n).all Text.isBlank⟩
  | [] => none

/-- The fence that is open after a line. -/
def fenceAfter (opened : Option FenceLine) (line : String) : Option FenceLine :=
  match opened, fenceLine? line with
  | none, f => f
  | some o, some f => if f.mark = o.mark ∧ o.length ≤ f.length ∧ f.bare then none else some o
  | some o, none => some o

/-- The sections of a text, as lines; a line inside a fence ends no section. -/
def sections (opened : Option FenceLine) (current : List String) : List String → List (List String)
  | [] => [current.reverse]
  | line :: rest =>
    if opened.isNone && Text.trimEnd line == sectionMark then
      current.reverse :: sections none [] rest
    else sections (fenceAfter opened line) (line :: current) rest

/-- Lines, each with its break. -/
def unlines (lines : List String) : String := String.join (lines.map fun l => l ++ "\n")

def lineText (b : Bitpress.Markdown.CodeBlock) : String := String.intercalate "\n" b.lines

/-- The name of a fragment, which stands behind the language of its block. -/
def fragmentName? (b : Bitpress.Markdown.CodeBlock) : Option String :=
  b.info.bind fun info =>
    let name := Text.trim info
    if name = "" then none else some name

/-- The template text of a bit from its code blocks. -/
def sourceOf (blocks : List Bitpress.Markdown.CodeBlock) : Except DocumentFault Tree := do
  match blocks with
  | [b] => if (fragmentName? b).isNone then return .str (lineText b)
  | _ => pure ()
  let parts ← blocks.mapM fun b =>
    match fragmentName? b with
    | some name => .ok (name, Tree.str (lineText b))
    | none => .error .unnamedFragment
  return .map (Table.ofPairs parts)

/-- The entries of a header. -/
def headerTable (notMap : String → DocumentFault) (t : Tree) : Except DocumentFault (Table Tree) :=
  match t with
  | .map entries => .ok entries
  | .null => .ok []
  | other => .error (notMap (Json.compact other))

/-- The bit of a section. -/
def bitOf (lines : List String) : Except DocumentFault Tree := do
  let blocks := (Bitpress.Markdown.codeBlocks lines).filter fun b => b.language.isSome
  match blocks with
  | [] => throw .noCodeBlock
  | first :: _ =>
    let header ← headerTable .headerNotMap (← readYaml (unlines (lines.take first.line)))
    return .map (header.put "src" (← sourceOf blocks))

/-- The tree of a registry. -/
def read (text : String) : Except DocumentFault Tree := do
  match sections none [] (Text.lines text) with
  | preamble :: header :: rest =>
    if !Text.blankText (unlines preamble) then throw .noFrontmatter
    let root ← headerTable .frontmatterNotMap (← readYaml (unlines header))
    let bits ← (rest.filter fun s => !Text.blankText (unlines s)).mapM bitOf
    return .map (if bits.isEmpty then root else root.put "bits" (.list bits))
  | _ => throw .noFrontmatter

/-! ### Writing -/

/-- The length of the longest run of backticks; `run` is how long the current one is. -/
def longestRun (longest run : Nat) : List Char → Nat
  | [] => Nat.max longest run
  | c :: rest => if c = '\u0060' then longestRun longest (run + 1) rest else longestRun (Nat.max longest run) 0 rest

/-- A code block, whose fence is longer than every run of backticks in its text. -/
def block (fragment : Option String) (text : String) : String :=
  let fence := String.ofList (List.replicate (Nat.max (longestRun 0 0 text.toList) 2 + 1) '\u0060')
  let name := match fragment with
    | some f => " " ++ f
    | none => ""
  fence ++ sourceLanguage ++ name ++ "\n" ++ text ++ "\n" ++ fence ++ "\n"

def bitText (b : BitDecl) : String :=
  let header := Table.without b.encode.entries "src"
  (if header.isEmpty then "" else Yaml.write (.map header)) ++ match b.src with
    | .single text => block none text
    | .fragments parts => String.join (parts.map fun e => block (some e.1) e.2)

def write (d : RegistryDocument) : String :=
  let mark := sectionMark ++ "\n"
  let header := Table.without d.encode.entries "bits"
  mark ++ Yaml.write (.map header) ++ mark ++ String.intercalate mark (d.bits.map bitText)

end Markdown

end Bitpress.Document
