import Bitpress.Shell.Token

/-!
The commands of a shell script, and how they are read from its tokens.
-/

namespace Bitpress.Shell

inductive Direction
  | read
  | write
  | append
  | duplicate
  | hereText
deriving DecidableEq, Inhabited

structure Redirection where
  descriptor : Nat
  direction : Direction
  target : Word
deriving DecidableEq, Inhabited

inductive Command
  | simple (assignments : List (String × Word)) (words : List Word) (redirections : List Redirection)
  | sequence (items : List Command)
  | both (left right : Command)
  | either (left right : Command)
  | negated (c : Command)
  | pipeline (stages : List Command)
  | subshell (body : Command)
  | branch (condition yes no : Command)
  /-- Runs the body while the condition succeeds, or while it fails. -/
  | loop (wanted : Bool) (condition body : Command)
  | each (name : String) (words : Option (List Word)) (body : Command)
  | select (subject : Word) (arms : List (List Word × Command))
  | define (name : String) (body : Command)
  | redirected (body : Command) (redirections : List Redirection)
deriving Inhabited

namespace Command

def reserved : List String :=
  ["if", "then", "elif", "else", "fi", "while", "until", "do", "done", "for", "in", "case", "esac", "!", "\x7b", "\x7d"]

/-- The reserved word at the front, if there is one. -/
def keyword? : List Token → Option String
  | .word w :: _ => w.bare?.filter fun s => reserved.contains s
  | _ => none

def expect (s : String) (ts : List Token) : Option (List Token) :=
  if keyword? ts = some s then some (ts.drop 1) else none

def skipBreaks (ts : List Token) : List Token := ts.dropWhile (· == .operator "\n")

/-- Whether a list of commands ends here. -/
def endsList (ts : List Token) : Bool :=
  match ts with
  | [] => true
  | .operator s :: _ => s == ")" || s == ";;"
  | _ => (keyword? ts).any fun s => ["then", "elif", "else", "fi", "do", "done", "esac", "\x7d"].contains s

def directionOf (operator : String) : Option (Nat × Direction) :=
  match operator with
  | "<" => some (0, .read)
  | ">" | ">|" => some (1, .write)
  | ">>" => some (1, .append)
  | ">&" => some (1, .duplicate)
  | "<&" => some (0, .duplicate)
  | "<<" => some (0, .hereText)
  | _ => none

/-- A redirection at the front. -/
def redirection? (ts : List Token) : Option (Redirection × List Token) :=
  let (given, ts) := match ts with
    | .descriptor n :: ts => (some n, ts)
    | ts => (none, ts)
  match ts with
  | .operator s :: .word w :: rest =>
    (directionOf s).map fun (standard, direction) => (⟨given.getD standard, direction, w⟩, rest)
  | .operator "<<" :: .hereText w :: rest => some (⟨given.getD 0, .hereText, w⟩, rest)
  | _ => none

/-- All redirections at the front. -/
def redirections (ts : List Token) : (fuel : Nat) → List Redirection × List Token
  | 0 => ([], ts)
  | fuel + 1 =>
    match redirection? ts with
    | some (r, rest) =>
      let (rs, rest) := redirections rest fuel
      (r :: rs, rest)
    | none => ([], ts)

/-- An assignment: a name and an equals sign at the beginning of a word. -/
def assignment? (w : Word) : Option (String × Word) :=
  match w with
  | .text s false :: rest =>
    let name := s.takeWhile Token.isNameChar
    match s.drop name.length with
    | '=' :: value =>
      if name.head?.any Token.isNameStart then
        some (String.ofList name, if value = [] then rest else .text value false :: rest)
      else none
    | _ => none
  | _ => none

/-- The words and redirections of a simple command. Assignments stand before the first word. -/
def simple? (assignments : List (String × Word)) (words : List Word) (rs : List Redirection)
    (ts : List Token) : (fuel : Nat) → Option (Command × List Token)
  | 0 => none
  | fuel + 1 =>
    let done : Option (Command × List Token) :=
      if assignments = [] ∧ words = [] ∧ rs = [] then none
      else some (.simple assignments.reverse words.reverse rs.reverse, ts)
    match redirection? ts with
    | some (r, rest) => simple? assignments words (r :: rs) rest fuel
    | none =>
      match ts with
      | .word w :: rest =>
        match if words = [] then assignment? w else none with
        | some a => simple? (a :: assignments) words rs rest fuel
        | none => simple? assignments (w :: words) rs rest fuel
      | _ => done

/-- The words up to the end of the line or a semicolon. -/
def wordList : List Token → List Word × List Token
  | .word w :: rest =>
    let (ws, rest) := wordList rest
    (w :: ws, rest)
  | ts => ([], ts)

/-- The patterns of an arm, up to its parenthesis. -/
def patterns? : List Token → Option (List Word × List Token)
  | .word w :: .operator "|" :: rest => (patterns? rest).map fun (ws, rest) => (w :: ws, rest)
  | .word w :: .operator ")" :: rest => some ([w], rest)
  | _ => none

def skipSeparator (ts : List Token) : List Token :=
  skipBreaks (match ts with
    | .operator ";" :: rest => rest
    | ts => ts)

mutual

/-- A list of commands up to a word or sign that ends it. -/
def list? (ts : List Token) : (fuel : Nat) → Option (Command × List Token)
  | 0 => none
  | fuel + 1 => do
    let ts := skipBreaks ts
    if endsList ts then some (.sequence [], ts)
    else
      let (c, ts) ← chain? ts fuel
      match ts with
      | .operator s :: rest =>
        if [";", "&", "\n"].contains s then
          match ← list? rest fuel with
          | (.sequence cs, rest) => some (.sequence (c :: cs), rest)
          | (other, rest) => some (.sequence [c, other], rest)
        else some (.sequence [c], ts)
      | ts => some (.sequence [c], ts)

/-- Commands joined by `&&` and `||`, from the left. -/
def chain? (ts : List Token) : (fuel : Nat) → Option (Command × List Token)
  | 0 => none
  | fuel + 1 => do
    let (c, ts) ← pipeline? ts fuel
    chained? c ts fuel

def chained? (left : Command) (ts : List Token) : (fuel : Nat) → Option (Command × List Token)
  | 0 => none
  | fuel + 1 =>
    match ts with
    | .operator "&&" :: rest => do
      let (right, rest) ← pipeline? (skipBreaks rest) fuel
      chained? (.both left right) rest fuel
    | .operator "||" :: rest => do
      let (right, rest) ← pipeline? (skipBreaks rest) fuel
      chained? (.either left right) rest fuel
    | ts => some (left, ts)

def pipeline? (ts : List Token) : (fuel : Nat) → Option (Command × List Token)
  | 0 => none
  | fuel + 1 =>
    match expect "!" ts with
    | some rest => (pipeline? rest fuel).map fun (c, rest) => (.negated c, rest)
    | none => do
      let (stages, rest) ← stages? ts fuel
      match stages with
      | [c] => some (c, rest)
      | stages => some (.pipeline stages, rest)

def stages? (ts : List Token) : (fuel : Nat) → Option (List Command × List Token)
  | 0 => none
  | fuel + 1 => do
    let (c, ts) ← command? ts fuel
    match ts with
    | .operator "|" :: rest => (stages? (skipBreaks rest) fuel).map fun (cs, rest) => (c :: cs, rest)
    | ts => some ([c], ts)

def command? (ts : List Token) : (fuel : Nat) → Option (Command × List Token)
  | 0 => none
  | fuel + 1 =>
    match ts with
    | .word w :: .operator "(" :: .operator ")" :: rest => do
      let (body, rest) ← command? (skipBreaks rest) fuel
      some (.define (← w.bare?) body, rest)
    | ts =>
      match compound? ts fuel with
      | some (c, rest) =>
        match redirections rest rest.length with
        | ([], rest) => some (c, rest)
        | (rs, rest) => some (.redirected c rs, rest)
      | none => if (keyword? ts).isSome then none else simple? [] [] [] ts (ts.length + 1)

/-- A command that begins with a reserved word or a parenthesis. -/
def compound? (ts : List Token) : (fuel : Nat) → Option (Command × List Token)
  | 0 => none
  | fuel + 1 =>
    match ts with
    | .operator "(" :: rest => do
      let (body, rest) ← list? rest fuel
      match rest with
      | .operator ")" :: rest => some (.subshell body, rest)
      | _ => none
    | ts => do
      let rest := ts.drop 1
      match ← keyword? ts with
      | "\x7b" =>
        let (body, rest) ← list? rest fuel
        some (body, ← expect "\x7d" rest)
      | "if" => branch? rest fuel
      | "while" => loop? true rest fuel
      | "until" => loop? false rest fuel
      | "for" => each? rest fuel
      | "case" => select? rest fuel
      | _ => none

/-- What follows `if` or `elif`. -/
def branch? (ts : List Token) : (fuel : Nat) → Option (Command × List Token)
  | 0 => none
  | fuel + 1 => do
    let (condition, ts) ← list? ts fuel
    let (yes, ts) ← list? (← expect "then" ts) fuel
    match keyword? ts with
    | some "elif" =>
      let (no, ts) ← branch? (ts.drop 1) fuel
      some (.branch condition yes no, ts)
    | some "else" =>
      let (no, ts) ← list? (ts.drop 1) fuel
      some (.branch condition yes no, ← expect "fi" ts)
    | _ => some (.branch condition yes (.sequence []), ← expect "fi" ts)

/-- What follows `while` or `until`. -/
def loop? (wanted : Bool) (ts : List Token) : (fuel : Nat) → Option (Command × List Token)
  | 0 => none
  | fuel + 1 => do
    let (condition, ts) ← list? ts fuel
    let (body, ts) ← list? (← expect "do" ts) fuel
    some (.loop wanted condition body, ← expect "done" ts)

/-- What follows `for`. -/
def each? (ts : List Token) : (fuel : Nat) → Option (Command × List Token)
  | 0 => none
  | fuel + 1 =>
    match ts with
    | .word w :: rest => do
      let name ← w.bare?
      let (words, rest) := match expect "in" (skipBreaks rest) with
        | some rest =>
          let (ws, rest) := wordList rest
          (some ws, rest)
        | none => (none, rest)
      let (body, rest) ← list? (← expect "do" (skipSeparator rest)) fuel
      some (.each name words body, ← expect "done" rest)
    | _ => none

/-- What follows `case`. -/
def select? (ts : List Token) : (fuel : Nat) → Option (Command × List Token)
  | 0 => none
  | fuel + 1 =>
    match ts with
    | .word w :: rest => do
      let (arms, rest) ← arms? (skipBreaks (← expect "in" (skipBreaks rest))) fuel
      some (.select w arms, rest)
    | _ => none

def arms? (ts : List Token) : (fuel : Nat) → Option (List (List Word × Command) × List Token)
  | 0 => none
  | fuel + 1 =>
    match expect "esac" ts with
    | some rest => some ([], rest)
    | none => do
      let opened := match ts with
        | .operator "(" :: rest => rest
        | ts => ts
      let (ws, ts) ← patterns? opened
      let (body, ts) ← list? ts fuel
      let rest := match ts with
        | .operator ";;" :: rest => rest
        | ts => ts
      (arms? (skipBreaks rest) fuel).map fun (arms, rest) => ((ws, body) :: arms, rest)

end

/-- The command of a script, unless the script cannot be read. -/
def ofScript? (cs : List Char) : Option Command := do
  let ts ← Token.ofScript? cs
  let (c, rest) ← list? ts (16 * ts.length + 16)
  if rest = [] then some c else none

end Command

end Bitpress.Shell
