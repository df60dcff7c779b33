import Bitpress.Bit
import Bitpress.Declaration.Query
import Bitpress.Override

/-!
Presets: choosing one of a bit, and the tree it stands for before any query runs.
-/

namespace Bitpress

/-- A chosen preset: the bit's own defaults, or a declared one with its place. -/
inductive PresetChoice
  | defaults
  | declared (place : Nat) (preset : PresetDecl)
deriving Inhabited

namespace PresetChoice

/-- The declared preset at a place counted from one. -/
def atPlace (b : Bit) (index : Int) : Outcome PresetChoice :=
  match (if 1 ≤ index then b.presets[(index - 1).toNat]? else none) with
  | some p => .ok (.declared (index - 1).toNat p)
  | none => .error (.presetOutOfRange b.label index b.presets.length)

/-- The first preset that satisfies a test, with its place. -/
def first? (b : Bit) (test : PresetDecl → Bool) : Option PresetChoice :=
  match b.presets.findIdx? test with
  | some i => (b.presets[i]?).map (.declared i)
  | none => none

def hasName (name : String) (p : PresetDecl) : Bool := p.name == some name || p.label == some name

def hasId (name : String) (p : PresetDecl) : Bool := p.id.bind Tree.scalarText? == some name

/-- Reads a signed whole number of 64 bits. -/
def signed? (s : String) : Option Int :=
  let digits (cs : List Char) : Option Nat :=
    if cs.isEmpty || cs.any (fun c => !c.isDigit) then none
    else some (cs.foldl (fun n c => n * 10 + (c.toNat - '0'.toNat)) 0)
  let n : Option Int :=
    match s.toList with
    | '-' :: cs => (digits cs).map fun n => -(n : Int)
    | '+' :: cs => (digits cs).map fun n => (n : Int)
    | cs => (digits cs).map fun n => (n : Int)
  match n with
  | some i => if Number.leastInt ≤ i ∧ i ≤ Number.greatestSigned then some i else none
  | none => none

/-- Whether a selector finds its preset only by the older key `id`. -/
def usesId (b : Bit) : Option PresetSelector → Bool
  | some (.name s) =>
    let name := Text.trim s
    name != Bit.defaultPreset && !b.presets.any (hasName name) && b.presets.any (hasId name)
  | _ => false

/-- The preset that a selector picks: without one the defaults; a number picks by place; a text picks
by name or label, then by id, then as a number. -/
def choose (b : Bit) : Option PresetSelector → Outcome PresetChoice
  | none => .ok .defaults
  | some (.index i) => atPlace b i
  | some (.name s) =>
    let name := Text.trim s
    if name = Bit.defaultPreset then .ok .defaults
    else
      match first? b (hasName name) <|> first? b (hasId name) with
      | some choice => .ok choice
      | none =>
        match signed? name with
        | some i => atPlace b i
        | none => .error (.presetNotFound b.label name)

def idWarning (b : Bit) (selector : Option PresetSelector) : Warning :=
  let name := match selector with
    | some (.name s) => Text.trim s
    | _ => ""
  ⟨"selecting presets by `id` is deprecated, use `name` instead",
    [("bit", b.label), ("preset", name)]⟩

end PresetChoice

namespace PresetDecl

/-- A part of a preset laid over the bit's own, by the declared policy. -/
def laidOver (p : PresetDecl) (part : Part) (base own : Table Tree) : Outcome (Table Tree) := do
  match ← p.merge.policy part with
  | .replace => return own
  | .merge => return Table.merge .replace base own

/-- The tree of a preset: its own variables, and its queries and compose map over the bit's, with its
overrides carried out. -/
def tree (b : Bit) (p : PresetDecl) : Outcome Tree := do
  let queries ← p.laidOver .queries b.defaults.queries p.queries
  let compose ← p.laidOver .compose b.defaults.compose p.compose
  if !p.overrides.isEmpty && queries.isEmpty then
    throw (.presetOverridesWithoutQueries b.label (p.displayName?.getD ""))
  OverrideDecl.applyAll p.overrides
    (.map [("context", .map p.context), ("queries", .map queries), ("compose", .map compose)])

end PresetDecl

/-- The preset that a selector picks, with a warning when it is found only by its id. -/
def Preset.chosen (b : Bit) (selector : Option PresetSelector) : Press PresetChoice := do
  if PresetChoice.usesId b selector then Press.warn (PresetChoice.idWarning b selector)
  Press.ofOutcome (PresetChoice.choose b selector)

end Bitpress
