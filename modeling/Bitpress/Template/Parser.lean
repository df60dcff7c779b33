import Bitpress.Template.Statement
import Bitpress.Template.Token

/-!
Reading the tokens of a template. Operators bind in levels, loosest first; a
statement that encloses others runs to the statement that ends it.
-/

namespace Bitpress.Template

/-- What is left to read, the blocks so far, and whether a macro is being read. -/
structure Reading where
  rest : List Token
  names : List String := []
  blocks : Table (List Statement) := []
  inMacro : Bool := false

abbrev Parse (α : Type) := StateT Reading (Except TemplateFault) α

namespace Parse

def fail : Parse α := throw .syntaxError

/-- The next token; one that holds a fault raises it. -/
def peek? : Parse (Option Token) := do
  match (← get).rest with
  | [] => return none
  | .fault f :: _ => throw f
  | t :: _ => return some t

def advance : Parse Unit := modify fun r => { r with rest := r.rest.drop 1 }

/-- The next token, which must be there, taken. -/
def next : Parse Token := do
  match ← peek? with
  | some t => advance; return t
  | none => fail

def sees (t : Token) : Parse Bool := return (← peek?) == some t

/-- Takes a token if it is the next one. -/
def skip (t : Token) : Parse Bool := do
  let there ← sees t
  if there then advance
  return there

def skipSymbol (s : String) : Parse Bool := skip (.symbol s)

def skipWord (s : String) : Parse Bool := skip (.name s)

def expect (t : Token) : Parse Unit := do
  unless ← skip t do fail

def expectSymbol (s : String) : Parse Unit := expect (.symbol s)

def expectWord (s : String) : Parse Unit := expect (.name s)

def name : Parse String := do
  match ← next with
  | .name s => return s
  | _ => fail

/-- Names that nothing can be assigned to. -/
def reserved : List String := ["true", "True", "false", "False", "none", "None", "loop", "self"]

def freeName : Parse String := do
  let s ← name
  if reserved.contains s then fail else return s

/-! ### Expressions -/

/-- The levels of operators, from the loosest to the tightest. -/
inductive Level
  | either
  | both
  | negation
  | comparison
  | sum
  | concat
  | product
  | power
  | unary

def Level.tighter : Level → Level
  | .either => .both
  | .both => .negation
  | .negation => .comparison
  | .comparison => .sum
  | .sum => .concat
  | .concat => .product
  | .product => .power
  | .power => .unary
  | .unary => .unary

/-- The operator of a level that a token stands for. -/
def Level.operator? (level : Level) (t : Option Token) : Option Operator :=
  match level, t with
  | .either, some (.name "or") => some .either
  | .both, some (.name "and") => some .both
  | .comparison, some (.symbol "==") => some .equal
  | .comparison, some (.symbol "!=") => some .different
  | .comparison, some (.symbol "<") => some .less
  | .comparison, some (.symbol "<=") => some .lessOrEqual
  | .comparison, some (.symbol ">") => some .greater
  | .comparison, some (.symbol ">=") => some .greaterOrEqual
  | .comparison, some (.name "in") => some .within
  | .sum, some (.symbol "+") => some .plus
  | .sum, some (.symbol "-") => some .minus
  | .concat, some (.symbol "~") => some .concat
  | .product, some (.symbol "*") => some .times
  | .product, some (.symbol "/") => some .quotient
  | .product, some (.symbol "//") => some .wholeQuotient
  | .product, some (.symbol "%") => some .remainder
  | .power, some (.symbol "**") => some .power
  | _, _ => none

/-- Whether a token begins an argument of a test that stands without brackets. -/
def beginsArgument : Option Token → Bool
  | some (.name s) => !(["and", "or", "else", "is"].contains s)
  | some (.str _) | some (.int _) | some (.real _) => true
  | some (.symbol s) => ["+", "-", "[", "\x7b"].contains s
  | _ => false

/-- An assignment target without brackets: a name, or an attribute where that is allowed. -/
def dottedTarget : Nat → Expr → String → Parse Target
  | 0, _, _ => fail
  | fuel + 1, e, s => do
    if ← skipSymbol "." then dottedTarget fuel (.attribute e s) (← name) else return .attribute e s

def nameTarget (fuel : Nat) (dotted : Bool) : Parse Target := do
  let s ← freeName
  if dotted then
    if ← skipSymbol "." then return ← dottedTarget fuel (.variable s) (← name)
  return .name s

/-- One target, or several of them in a row. -/
def targets : Nat → Parse Target
  | 0 => fail
  | fuel + 1 => do
    let one : Parse Target := do
      if ← skipSymbol "(" then
        let t ← targets fuel
        expectSymbol ")"
        return t
      else return .name (← freeName)
    let first ← one
    if !(← sees (.symbol ",")) then return first
    return .several (first :: (← more fuel one))
where
  more : Nat → Parse Target → Parse (List Target)
    | 0, _ => fail
    | fuel + 1, one => do
      if !(← skipSymbol ",") then return []
      let t ← peek?
      if t == some (.symbol ")") || t == some .variableEnd || t == some .blockEnd ||
          t == some (.name "in") then return []
      let first ← one
      return first :: (← more fuel one)

mutual

/-- An expression: alternatives with `if` and `else` bind loosest. -/
def expr : Nat → Parse Expr
  | 0 => fail
  | fuel + 1 => do choices fuel (← level fuel .either)

def choices : Nat → Expr → Parse Expr
  | 0, _ => fail
  | fuel + 1, e => do
    if ← skipWord "if" then
      let condition ← level fuel .either
      let no ← if ← skipWord "else" then some <$> expr fuel else pure none
      choices fuel (.choice e condition no)
    else return e

def level : Nat → Level → Parse Expr
  | 0, _ => fail
  | fuel + 1, .negation => do
    if ← skipWord "not" then return .negation (← level fuel .negation)
    else level fuel .comparison
  | fuel + 1, .unary => do filters fuel (← signed fuel)
  | fuel + 1, l => do operators fuel l (← level fuel l.tighter)

/-- The operators of one level, joined from the left. -/
def operators : Nat → Level → Expr → Parse Expr
  | 0, _, _ => fail
  | fuel + 1, l, e => do
    match l, ← peek? with
    | .comparison, some (.name "not") =>
      advance
      expectWord "in"
      operators fuel l (.negation (.binary .within e (← level fuel l.tighter)))
    | l, t =>
      match l.operator? t with
      | some op =>
        advance
        operators fuel l (.binary op e (← level fuel l.tighter))
      | none => return e

def signed : Nat → Parse Expr
  | 0 => fail
  | fuel + 1 => do
    if ← skipSymbol "-" then return .opposite (← signed fuel) else accesses fuel (← primary fuel)

def primary : Nat → Parse Expr
  | 0 => fail
  | fuel + 1 => do
    match ← next with
    | .name "true" | .name "True" => return .literal (.bool true)
    | .name "false" | .name "False" => return .literal (.bool false)
    | .name "none" | .name "None" => return .literal .none
    | .name s => return .variable s
    | .str s => return .literal (.str s)
    | .int n => return .literal (.int n)
    | .real x => return .literal (.real x)
    | .symbol "(" =>
      if ← skipSymbol ")" then return .list []
      let first ← expr fuel
      if ← sees (.symbol ",") then return .list (first :: (← items fuel ")"))
      expectSymbol ")"
      return first
    | .symbol "[" =>
      if ← skipSymbol "]" then return .list []
      let first ← expr fuel
      return .list (first :: (← items fuel "]"))
    | .symbol "\x7b" =>
      if ← skipSymbol "\x7d" then return .dictionary []
      let first ← entry fuel
      return .dictionary (first :: (← entries fuel))
    | _ => fail

/-- The items after the first one, up to a closing bracket. -/
def items : Nat → String → Parse (List Expr)
  | 0, _ => fail
  | fuel + 1, bracket => do
    if ← skipSymbol bracket then return []
    expectSymbol ","
    if ← skipSymbol bracket then return []
    let first ← expr fuel
    return first :: (← items fuel bracket)

def entry : Nat → Parse (Expr × Expr)
  | 0 => fail
  | fuel + 1 => do
    let key ← expr fuel
    expectSymbol ":"
    return (key, ← expr fuel)

def entries : Nat → Parse (List (Expr × Expr))
  | 0 => fail
  | fuel + 1 => do
    if ← skipSymbol "\x7d" then return []
    expectSymbol ","
    if ← skipSymbol "\x7d" then return []
    let first ← entry fuel
    return first :: (← entries fuel)

/-- Attributes, items, slices and calls behind an expression. -/
def accesses : Nat → Expr → Parse Expr
  | 0, _ => fail
  | fuel + 1, e => do
    match ← peek? with
    | some (.symbol ".") =>
      advance
      accesses fuel (.attribute e (← name))
    | some (.symbol "[") =>
      advance
      let start ← if ← sees (.symbol ":") then pure none else some <$> expr fuel
      if ← skipSymbol ":" then
        let stop ←
          if (← sees (.symbol ":")) || (← sees (.symbol "]")) then pure none else some <$> expr fuel
        let step ←
          if ← skipSymbol ":" then
            if ← sees (.symbol "]") then pure none else some <$> expr fuel
          else pure none
        expectSymbol "]"
        accesses fuel (.slice e start stop step)
      else
        expectSymbol "]"
        match start with
        | some index => accesses fuel (.item e index)
        | none => fail
    | some (.symbol "(") =>
      advance
      accesses fuel (.call e (← arguments fuel false false))
    | _ => return e

/-- Arguments up to the closing bracket. Positional ones come before keywords. -/
def arguments : Nat → Bool → Bool → Parse (List Arg)
  | 0, _, _ => fail
  | fuel + 1, later, keywords => do
    if ← skipSymbol ")" then return []
    if later then
      expectSymbol ","
      if ← skipSymbol ")" then return []
    if ← skipSymbol "**" then
      let e ← expr fuel
      return .spreadKeywords e :: (← arguments fuel true true)
    else if ← skipSymbol "*" then
      let e ← expr fuel
      return .spread e :: (← arguments fuel true keywords)
    else
      match ← expr fuel with
      | .variable s =>
        if ← skipSymbol "=" then
          let e ← expr fuel
          return .keyword s e :: (← arguments fuel true true)
        else if keywords then fail
        else return .positional (.variable s) :: (← arguments fuel true false)
      | e => if keywords then fail else return .positional e :: (← arguments fuel true false)

def optionalArguments : Nat → Parse (List Arg)
  | 0 => fail
  | fuel + 1 => do if ← skipSymbol "(" then arguments fuel false false else return []

/-- Filters and tests behind an expression. -/
def filters : Nat → Expr → Parse Expr
  | 0, _ => fail
  | fuel + 1, e => do
    match ← peek? with
    | some (.symbol "|") =>
      advance
      let s ← name
      filters fuel (.filtered e s (← optionalArguments fuel))
    | some (.name "is") =>
      advance
      let negated ← skipWord "not"
      let s ← name
      let args ←
        if ← sees (.symbol "(") then optionalArguments fuel
        else if beginsArgument (← peek?) then do
          let argument ← signed fuel
          pure [Arg.positional argument]
        else pure []
      let test := Expr.tested e s args
      filters fuel (if negated then .negation test else test)
    | _ => return e

end

/-- Filters in a row without an expression before them, up to the end of a statement. -/
def filterChain : Nat → Bool → Parse (List FilterCall)
  | 0, _ => fail
  | fuel + 1, later => do
    if ← sees .blockEnd then return []
    if later then expectSymbol "|"
    let s ← name
    let args ← optionalArguments fuel
    return ⟨s, args⟩ :: (← filterChain fuel true)

/-! ### Statements -/

/-- A note on which variables an inserted template sees; it sees all of them either way. -/
def skipContextNote : Parse Unit := do
  if (← skipWord "with") || (← skipWord "without") then expectWord "context"

def parameters : Nat → Bool → Bool → Parse (List Parameter)
  | 0, _, _ => fail
  | fuel + 1, later, standards => do
    if ← skipSymbol ")" then return []
    if later then
      expectSymbol ","
      if ← skipSymbol ")" then return []
    let s ← freeName
    if ← skipSymbol "=" then
      let e ← expr fuel
      return ⟨s, some e⟩ :: (← parameters fuel true true)
    else if standards then fail
    else return ⟨s, none⟩ :: (← parameters fuel true false)

def assignments : Nat → Bool → Parse (List (Target × Expr))
  | 0, _ => fail
  | fuel + 1, later => do
    if ← skip .blockEnd then return []
    if later then expectSymbol ","
    let target ←
      if ← skipSymbol "(" then do
        let t ← targets fuel
        expectSymbol ")"
        pure t
      else nameTarget fuel false
    expectSymbol "="
    let e ← expr fuel
    return (target, e) :: (← assignments fuel true)

/-- The names to bring in, each with the name it gets. -/
def broughtNames : Nat → Bool → Parse (List (String × String))
  | 0, _ => fail
  | fuel + 1, later => do
    let atEnd : Parse Bool := do
      let t ← peek?
      return t == some .blockEnd || t == some (.name "with") || t == some (.name "without")
    if ← atEnd then return []
    if later then
      expectSymbol ","
      if ← atEnd then return []
    let s ← freeName
    let given ← if ← skipWord "as" then freeName else pure s
    return (s, given) :: (← broughtNames fuel true)

/-- Remembers the name of a block, which must be new. -/
def claimBlock (s : String) : Parse Unit := do
  if (← get).inMacro || (← get).names.contains s then fail
  modify fun r => { r with names := s :: r.names }

mutual

/-- Statements up to one of the words that end them, which is left to be read; without such words, up
to the end of the template. -/
def statements : Nat → List String → Parse (List Statement)
  | 0, _ => fail
  | fuel + 1, ends => do
    match ← peek? with
    | none => if ends.isEmpty then return [] else fail
    | some (.text s) =>
      advance
      return .text s :: (← statements fuel ends)
    | some .variableStart =>
      advance
      let e ← expr fuel
      expect .variableEnd
      return .print e :: (← statements fuel ends)
    | some .blockStart =>
      advance
      match ← peek? with
      | some (.name word) =>
        if ends.contains word then return []
        advance
        let first ← statement fuel word
        expect .blockEnd
        return first :: (← statements fuel ends)
      | _ => fail
    | some _ => fail

/-- The statements from the end of the enclosing one's beginning to a word, which is taken. -/
def body : Nat → String → Parse (List Statement)
  | 0, _ => fail
  | fuel + 1, ending => do
    expect .blockEnd
    let inner ← statements fuel [ending]
    expectWord ending
    return inner

def statement : Nat → String → Parse Statement
  | 0, _ => fail
  | fuel + 1, "for" => do
    let target ← targets fuel
    expectWord "in"
    let items ← level fuel .either
    let condition ← if ← skipWord "if" then some <$> expr fuel else pure none
    let recursive ← skipWord "recursive"
    expect .blockEnd
    let inner ← statements fuel ["endfor", "else"]
    let otherwise ← if ← skipWord "else" then body fuel "endfor" else expectWord "endfor" *> pure []
    return .loop target items condition recursive inner otherwise
  | fuel + 1, "if" => do
    let condition ← expr fuel
    expect .blockEnd
    let yes ← statements fuel ["endif", "else", "elif"]
    let no ←
      if ← skipWord "elif" then do
        let other ← statement fuel "if"
        pure [other]
      else if ← skipWord "else" then body fuel "endif"
      else expectWord "endif" *> pure []
    return .branch condition yes no
  | fuel + 1, "with" => do
    let pairs ← assignments fuel false
    let inner ← statements fuel ["endwith"]
    expectWord "endwith"
    return .scope pairs inner
  | fuel + 1, "set" => do
    let bracketed ← skipSymbol "("
    let target ←
      if bracketed then do
        let t ← targets fuel
        expectSymbol ")"
        pure t
      else nameTarget fuel true
    if !bracketed && ((← sees .blockEnd) || (← sees (.symbol "|"))) then
      let chain ←
        if ← skipSymbol "|" then do
          let chain ← filterChain fuel false
          if chain.isEmpty then fail else pure chain
        else pure []
      return .capture target chain (← body fuel "endset")
    expectSymbol "="
    return .assign target (← expr fuel)
  | fuel + 1, "autoescape" => do
    let mode ← expr fuel
    return .escaping mode (← body fuel "endautoescape")
  | fuel + 1, "filter" => do
    let chain ← filterChain fuel false
    if chain.isEmpty then fail
    return .filtering chain (← body fuel "endfilter")
  | fuel + 1, "block" => do
    let s ← name
    claimBlock s
    let inner ← body fuel "endblock"
    match ← peek? with
    | some (.name other) => if other = s then advance else fail
    | _ => pure ()
    modify fun r => { r with blocks := r.blocks.put s inner }
    return .block s
  | fuel + 1, "extends" => return .inherit (← expr fuel)
  | fuel + 1, "include" => do
    let template ← expr fuel
    let ignoreMissing ← if ← skipWord "ignore" then expectWord "missing" *> pure true else pure false
    skipContextNote
    return .insert template ignoreMissing
  | fuel + 1, "import" => do
    let template ← expr fuel
    expectWord "as"
    let target ← nameTarget fuel false
    skipContextNote
    return .bring template target
  | fuel + 1, "from" => do
    let template ← expr fuel
    expectWord "import"
    let names ← broughtNames fuel false
    skipContextNote
    return .bringNames template names
  | fuel + 1, "macro" => do
    let s ← name
    expectSymbol "("
    let formal ← parameters fuel false false
    return .define ⟨s, formal, ← macroBody fuel "endmacro"⟩
  | fuel + 1, "call" => do
    let formal ← if ← skipSymbol "(" then parameters fuel false false else pure []
    match ← expr fuel with
    | .call callee args => return .callWith callee args ⟨"caller", formal, ← macroBody fuel "endcall"⟩
    | _ => fail
  | fuel + 1, "do" => do
    match ← expr fuel with
    | .call callee args => return .perform callee args
    | _ => fail
  | _ + 1, _ => fail

def macroBody : Nat → String → Parse (List Statement)
  | 0, _ => fail
  | fuel + 1, ending => do
    let outer := (← get).inMacro
    modify fun r => { r with inMacro := true }
    let inner ← body fuel ending
    modify fun r => { r with inMacro := outer }
    return inner

end

end Parse

/-- Reads a template. A token takes part in few levels of the grammar, which bounds the nesting. -/
def Script.parse (s : String) : Except TemplateFault Script := do
  let tokens := Token.scan s
  let (body, reading) ← (Parse.statements (24 * tokens.length + 24) []).run { rest := tokens }
  return ⟨body, reading.blocks⟩

end Bitpress.Template
