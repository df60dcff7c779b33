import Bitpress.Template.Function
import Bitpress.Template.Parser

/-!
Rendering. A template is rendered with the variables of a context; blocks in it
are rendered in turn, each with the text of its bit and with its own variables
over the defaults of the bit.

`room` bounds how deep the parts of templates nest. The nesting of macros and of
inserted templates is bounded by itself, and blocks are nested as deep as the
context is, so there is always room enough.
-/

namespace Bitpress

/-- What rendering needs beside a template and its variables: the resolved defaults of bits, and
filters beside those that every template knows. -/
structure Renderer where
  defaults : ElementId → Context := fun _ => []
  filters : Template.FilterSet := []

namespace Block

/-- The variables that a block is rendered with: those of the call over its own ones, and these over
the defaults of its bit. -/
def layered (b : Block) (defaults overrides : Context) : Context :=
  Context.merge defaults (Context.merge b.context overrides)

end Block

namespace Template

open Value (Reply refuse)

/-- What stays the same during a template run: the renderer, and the texts of other templates. -/
structure Setting where
  renderer : Renderer
  load : String → Except TemplateFault String

/-- The name of a template that is no file. -/
def inlineName : String := "<string>"

/-- A setting without other templates. -/
def Setting.alone (renderer : Renderer) : Setting := ⟨renderer, fun _ => .error .templateNotFound⟩

/-- The fault of a call that rendered a block. -/
def ofBlock (fault : TemplateFault) : TemplateFault := .nested .invalidOperation fault

/-- The text of a bit's part, or the fault to report. -/
def fragmentOf (b : Block) (part : Option String) : Reply String :=
  match b.bit.fragment part with
  | .ok text => .ok text
  | .error (.templateRender fault) => .error fault
  | .error _ => refuse

/-- A template by its name. -/
def script (setting : Setting) (name : String) : Reply Script := setting.load name >>= Script.parse

/-- The first template of a list of names that is there. -/
def firstScript? (setting : Setting) : List Value → Reply (Option Script)
  | [] => .ok none
  | v :: rest => do
    let some name := v.str? | refuse
    match script setting name with
    | .ok found => return some found
    | .error .templateNotFound => firstScript? setting rest
    | .error fault => throw fault

namespace Run

/-- Puts the value behind a filter's name and arguments. -/
def filtered (setting : Setting) (name : String) (args : List Value) : Reply Value :=
  Filter.run setting.renderer.filters name args

/-- Runs a step on other statements' behalf: what they inherit from comes to its end in it. -/
def standingAlone {α : Type} (step : Run α) : Run α := do
  let m ← get
  set { m with parent := none }
  let a ← step
  modify fun inner => { inner with parent := m.parent, muted := m.muted }
  return a

mutual

/-- Renders a template text, known by a name, with the variables of a context. -/
def render (room : Nat) (setting : Setting) (name source : String) (context : Context) :
    Reply String :=
  match room with
  | 0 => refuse
  | room + 1 => do
    let found ← Script.parse source
    let known := Value.ofContextEntries context
    let start : Machine :=
      { frames := [{ backdrop := .context known }], blocks := layersOf found.blocks
        ancestors := [name] }
    let (result, m) := (whole room setting found.body).run start
    result
    return m.out

/-- Renders a block with the variables of a call. -/
def renderBlock (room : Nat) (setting : Setting) (b : Block) (part : Option String)
    (keywords : Table Value) : Reply Value :=
  match room with
  | 0 => refuse
  | room + 1 => do
    let overrides ← Value.toContext keywords
    let rendered : Reply String := do
      let source ← fragmentOf b part
      render room (.alone setting.renderer) inlineName source
        (b.layered (setting.renderer.defaults b.bit.info.id) overrides)
    match rendered with
    | .ok s => return .str s true
    | .error fault => throw (ofBlock fault)

/-- Runs the statements of a template, and then those of the template that it inherits from. -/
def whole (room : Nat) (setting : Setting) (body : List Statement) : Run Unit :=
  match room with
  | 0 => throw .invalidOperation
  | room + 1 => standingAlone do
    let muted := (← get).muted
    body.forM (perform room setting)
    match (← get).parent with
    | none => pure ()
    | some parent =>
      modify fun m => { m with muted, parent := none }
      whole room setting parent.body

/-- The values of arguments, the keywords behind the others. -/
def arguments (room : Nat) (setting : Setting) (args : List Arg) (more : Table Value) :
    Run (List Value) :=
  match room with
  | 0 => throw .invalidOperation
  | room + 1 => do
    let mut values : List Value := []
    let mut keywords : Table Value := []
    let mut named := !more.isEmpty
    for arg in args do
      match arg with
      | .positional e => values := values ++ [← eval room setting e]
      | .spread e =>
        match (← eval room setting e).items? with
        | some items => values := values ++ items
        | none => throw .invalidOperation
      | .keyword s e =>
        keywords := keywords.put s (← eval room setting e)
        named := true
      | .spreadKeywords e =>
        keywords := keywords.putAll (← namedEntries (← eval room setting e))
        named := true
    if named then return values ++ [.keywords (Table.sorted (keywords.putAll more))]
    else return values

def optional (room : Nat) (setting : Setting) (e : Option Expr) : Run Value :=
  match room, e with
  | 0, _ => throw .invalidOperation
  | _, none => return .none
  | room + 1, some e => eval room setting e

def eval (room : Nat) (setting : Setting) (e : Expr) : Run Value :=
  match room with
  | 0 => throw .invalidOperation
  | room + 1 => do
    match e with
    | .literal l => return .ofLiteral l
    | .variable s => return (← lookup? s).getD .undefined
    | .list items => return .list (← items.mapM (eval room setting))
    | .dictionary entries =>
      let pairs ← entries.mapM fun e => do
        let key ← eval room setting e.1
        return (key, ← eval room setting e.2)
      return .ofPairs pairs
    | .negation e => return .bool !(← eval room setting e).isTrue
    | .opposite e =>
      let v ← eval room setting e
      v.negate
    | .binary .either a b =>
      let v ← eval room setting a
      if v.isTrue then return v else eval room setting b
    | .binary .both a b =>
      let v ← eval room setting a
      if v.isTrue then eval room setting b else return v
    | .binary op a b =>
      let v ← eval room setting a
      let w ← eval room setting b
      v.apply op w
    | .choice yes condition no =>
      if (← eval room setting condition).isTrue then eval room setting yes
      else
        match no with
        | some no => eval room setting no
        | none => return .undefined
    | .filtered e s args =>
      let v ← eval room setting e
      filtered setting s (v :: (← arguments room setting args []))
    | .tested e s args =>
      let v ← eval room setting e
      let values ← arguments room setting args []
      return .bool (← Test.run setting.renderer.filters.keyList s (v :: values))
    | .attribute e s =>
      let v ← eval room setting e
      memberOf v (.text s)
    | .item e i =>
      let v ← eval room setting e
      memberOf v (← eval room setting i)
    | .slice e a b c =>
      let v ← eval room setting e
      let start ← optional room setting a
      let stop ← optional room setting b
      let step ← optional room setting c
      v.slice start stop step
    | .call callee args => call room setting callee args []

/-- Calls a function, a macro or a method. `more` are keywords beside the written ones. -/
def call (room : Nat) (setting : Setting) (callee : Expr) (args : List Arg) (more : Table Value) :
    Run Value :=
  match room with
  | 0 => throw .invalidOperation
  | room + 1 => do
    match callee with
    | .variable "super" =>
      if (← arguments room setting args more).isEmpty then superBlock room setting
      else throw .invalidOperation
    | .variable "loop" =>
      match ← arguments room setting args more with
      | [v] => repeatLoop room setting v
      | _ => throw .invalidOperation
    | .variable s =>
      let values ← arguments room setting args more
      match ← lookup? s with
      | some v => callValue room setting v values
      | none => throw .unknownFunction
    | .attribute (.variable "self") s => capturedValue (runBlock room setting s)
    | .attribute e s =>
      let v ← eval room setting e
      callMethod room setting v s (← arguments room setting args more)
    | e =>
      let v ← eval room setting e
      callValue room setting v (← arguments room setting args more)

def callValue (room : Nat) (setting : Setting) (v : Value) (args : List Value) : Run Value :=
  match room with
  | 0 => throw .invalidOperation
  | room + 1 =>
    match v with
    | .procedure p closure => callMacro room setting p closure args
    | .builtin f => callBuiltin f args
    | .loop _ => throw .unknownFunction
    | _ => throw .invalidOperation

def callMethod (room : Nat) (setting : Setting) (v : Value) (method : String) (args : List Value) :
    Run Value :=
  match room with
  | 0 => throw .invalidOperation
  | room + 1 => do
    match v, method with
    | .block b, "render" =>
      let (positional, keywords) := Taking.split args
      let part ← Taking.run (Taking.optional Taking.ofName) positional
      renderBlock room setting b part keywords
    | .block b, "fragment" => return .fragment b (← Taking.run (Taking.one Taking.ofName) args)
    | .fragment b part, "render" =>
      let (positional, keywords) := Taking.split args
      Taking.run (pure ()) positional
      renderBlock room setting b (some part) keywords
    | .block _, _ | .fragment .., _ => throw .unknownMethod
    | .loop place, _ => callLoop place method args
    | v, _ =>
      if v.kind = .mapping ∨ v.isListLike then
        match ← member? v (.text method) with
        | some found => callValue room setting found args
        | none => throw .unknownMethod
      else throw .unknownMethod

/-- Calls a macro: its text with the parameters as variables. -/
def callMacro (room : Nat) (setting : Setting) (p : Procedure) (closure : Option Nat)
    (args : List Value) : Run Value :=
  match room with
  | 0 => throw .invalidOperation
  | room + 1 => do
    let (positional, keywords) := Taking.split args
    let names := p.parameters.map Parameter.name
    if names.length < positional.length then throw .tooManyArguments
    let known := if p.usesCaller then "caller" :: names else names
    if (names.take positional.length).any keywords.hasKey then throw .tooManyArguments
    Taking.onlyKeywords known keywords
    let m ← get
    let base := (m.frames.getLast?.map Frame.backdrop).getD .nothing
    let around : Backdrop := match closure with
      | some place => .closure place
      | none => .nothing
    let caller : Table Value :=
      if p.usesCaller then [("caller", (keywords.valueAt? "caller").getD .undefined)] else []
    set { m with
      frames := [{ locals := caller, backdrop := around }, { backdrop := base }]
      outer := m.outer + m.frames.length + macroCost
      blocks := [], currentBlock := none, parent := none }
    checkDepth
    let given := (List.range names.length).zip p.parameters
    let result ← capturedValue do
      for (i, parameter) in given.reverse do
        let v := (positional[i]? <|> keywords.valueAt? parameter.name).getD .undefined
        match v, parameter.standard with
        | .undefined, some e => store parameter.name (← eval room setting e)
        | v, _ => store parameter.name v
      whole room setting p.body
    modify fun inner =>
      { inner with
        frames := m.frames, outer := m.outer, blocks := m.blocks, currentBlock := m.currentBlock
        parent := m.parent }
    return result

/-- Runs a version of a block in a frame of its own. -/
def runVersion (room : Nat) (setting : Setting) (layers : Layers) : Run Unit :=
  match room with
  | 0 => throw .invalidOperation
  | room + 1 =>
    match layers.versions[layers.current]? with
    | some body => inFrame {} (whole room setting body)
    | none => throw .unknownBlock

def runBlock (room : Nat) (setting : Setting) (name : String) : Run Unit :=
  match room with
  | 0 => throw .invalidOperation
  | room + 1 => do
    let m ← get
    match m.blocks.valueAt? name with
    | none => throw .unknownBlock
    | some layers =>
      set { m with currentBlock := some name }
      runVersion room setting layers
      modify fun inner => { inner with currentBlock := m.currentBlock }

/-- The text of the version of the present block that it replaces. -/
def superBlock (room : Nat) (setting : Setting) : Run Value :=
  match room with
  | 0 => throw .invalidOperation
  | room + 1 => do
    let m ← get
    let some name := m.currentBlock | throw .invalidOperation
    let some layers := m.blocks.valueAt? name | throw .invalidOperation
    if layers.versions.length ≤ layers.current + 1 then throw .invalidOperation
    let next := { layers with current := layers.current + 1 }
    setLayer name next.current
    let result ← capturedValue
      (tryCatch (runVersion room setting next) fun _ => throw .cannotRenderBlock)
    setLayer name layers.current
    return result

/-- Gives a target a value. -/
def assign (room : Nat) (setting : Setting) (target : Target) (v : Value) : Run Unit :=
  match room with
  | 0 => throw .invalidOperation
  | room + 1 => do
    match target with
    | .name s => store s v
    | .attribute e s => setAttribute (← eval room setting e) s v
    | .several targets =>
      let items ← unpack targets.length v
      for (t, item) in targets.zip items do
        assign room setting t item

/-- Runs the body of a loop for each item. -/
def eachItem (room : Nat) (setting : Setting) (target : Target) (recursive : Bool)
    (body : List Statement) (items : List Value) (length : Option Nat) : Run Unit :=
  match room with
  | 0 => throw .invalidOperation
  | room + 1 => do
    let place ← startRound items length
    inFrame { loop := some ⟨place, if recursive then some (target, body) else none⟩ } do
      for (i, item) in (List.range items.length).zip items do
        setIndex place i
        assign room setting target item
        body.forM (perform room setting)

/-- The text of a repetition of the innermost loop with other items. -/
def repeatLoop (room : Nat) (setting : Setting) (v : Value) : Run Value :=
  match room with
  | 0 => throw .invalidOperation
  | room + 1 => do
    let some l ← innermostLoop? | throw .invalidOperation
    let some (target, body) := l.again | throw .invalidOperation
    let items ← Filter.items v
    capturedValue (eachItem room setting target true body items v.size?)

/-- Runs the first template of a list of names in place. -/
def insert (room : Nat) (setting : Setting) (v : Value) (ignoreMissing : Bool) : Run Unit :=
  match room with
  | 0 => throw .invalidOperation
  | room + 1 => do
    let names := if v.isListLike then v.items?.getD [] else [v]
    match ← firstScript? setting names with
    | none => if ignoreMissing || names.isEmpty then pure () else throw .templateNotFound
    | some found =>
      let m ← get
      let enclosed := (m.frames.head?.bind Frame.enclosed)
      let withEnclosed (place : Option Nat) (frames : List Frame) : List Frame :=
        match frames with
        | [] => []
        | f :: rest => { f with enclosed := place } :: rest
      set { m with
        outer := m.outer + insertCost, blocks := layersOf found.blocks, escaping := .none
        frames := withEnclosed none m.frames }
      checkDepth
      tryCatch (whole room setting found.body) fun _ => throw .cannotInclude
      modify fun inner =>
        { inner with
          outer := m.outer, blocks := m.blocks, escaping := m.escaping, ancestors := m.ancestors
          frames := withEnclosed enclosed inner.frames }

/-- Applies filters in a row. -/
def filterAll (room : Nat) (setting : Setting) (v : Value) (filters : List FilterCall) : Run Value :=
  match room with
  | 0 => throw .invalidOperation
  | room + 1 =>
    filters.foldlM (fun v f => do
      filtered setting f.name (v :: (← arguments room setting f.args []))) v

def perform (room : Nat) (setting : Setting) (s : Statement) : Run Unit :=
  match room with
  | 0 => throw .invalidOperation
  | room + 1 => do
    let all (body : List Statement) : Run Unit := body.forM (perform room setting)
    match s with
    | .text s => write s
    | .print e =>
      let v ← eval room setting e
      write (v.printed (← get).escaping)
    | .loop target items condition recursive body otherwise =>
      let v ← eval room setting items
      let vs ← Filter.items v
      let (vs, length) ← match condition with
        | none => pure (vs, v.size?)
        | some condition => do
          let kept ← inFrame {} (vs.filterM fun item => do
            assign room setting target item
            return (← eval room setting condition).isTrue)
          pure (kept, some kept.length)
      eachItem room setting target recursive body vs length
      if vs.isEmpty then all otherwise
    | .branch condition yes no =>
      if (← eval room setting condition).isTrue then all yes else all no
    | .scope assignments body => inFrame {} do
      for (target, e) in assignments do
        assign room setting target (← eval room setting e)
      all body
    | .assign target e => assign room setting target (← eval room setting e)
    | .capture target filters body =>
      let v ← capturedValue (all body)
      assign room setting target (← filterAll room setting v filters)
    | .escaping mode body =>
      let present := (← get).escaping
      let escaping ← escapingOf (← eval room setting mode) present
      modify fun m => { m with escaping }
      all body
      modify fun m => { m with escaping := present }
    | .filtering filters body =>
      let v ← capturedValue (all body)
      let v ← filterAll room setting v filters
      write (v.printed (← get).escaping)
    | .block name =>
      let m ← get
      if m.parent.isNone && !m.muted then runBlock room setting name
    | .inherit e =>
      let v ← eval room setting e
      let m ← get
      if m.parent.isSome then throw .invalidOperation
      let some name := v.str? | throw .invalidOperation
      if m.ancestors.contains name then throw .invalidOperation
      let found ← script setting name
      addBlocks found.blocks
      modify fun m =>
        { m with ancestors := name :: m.ancestors, parent := some found, muted := true }
    | .insert e ignoreMissing => insert room setting (← eval room setting e) ignoreMissing
    | .bring e target =>
      let content ← silently (inFrame {} do
        insert room setting (← eval room setting e) false
        return ((← get).frames.head?.map Frame.locals).getD [])
      assign room setting target (.ofTable content)
    | .bringNames e names =>
      let content ← silently (inFrame {} do
        insert room setting (← eval room setting e) false
        names.mapM fun n => do return (n.2, (← lookup? n.1).getD .undefined))
      for (s, v) in content do
        store s v
    | .define p =>
      let closure ← enclose (p.free.filter (· != "caller"))
      store p.name (.procedure p closure)
    | .callWith callee args caller =>
      let closure ← enclose (caller.free.filter (· != "caller"))
      let v ← call room setting callee args [("caller", .procedure caller closure)]
      write (v.printed (← get).escaping)
    | .perform callee args => discard (call room setting callee args [])

end

end Run

/-- How deep the parts of templates may nest. -/
def roomy : Nat := 1000000

end Template

namespace Renderer

/-- Renders a template text. -/
def renderText (renderer : Renderer) (source : String) (context : Context) : Outcome String :=
  (Template.Run.render Template.roomy (.alone renderer) Template.inlineName source context).mapError .templateRender

end Renderer

namespace Block

/-- Renders a part of a block, with the variables of a call. -/
def render (b : Block) (renderer : Renderer) (part : Option String) (overrides : Context) :
    Outcome String := do
  let source ← b.bit.fragment part
  renderer.renderText source (b.layered (renderer.defaults b.bit.info.id) overrides)

end Block

end Bitpress
