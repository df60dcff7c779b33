import Bitpress.Error
import Bitpress.Random

/-!
What a run of the program keeps between its steps: how many identities have been
given out, how many unseeded choices were made, and the warnings so far. A step
that fails keeps what it did to the session.
-/

namespace Bitpress

structure Warning where
  message : String
  fields : List (String × String) := []
deriving DecidableEq

structure Session where
  /-- The random words of the `n`-th choice without a seed. -/
  entropy : Nat → RandomSource := ChaCha.seeded
  choices : Nat := 0
  identities : Nat := 0
  warnings : List Warning := []
deriving Inhabited

/-- A step that may fail and that may change the session. -/
abbrev Press (α : Type) := ExceptT Error (StateM Session) α

namespace Press

def freshId : Press ElementId := do
  let s ← getThe Session
  set { s with identities := s.identities + 1 }
  return .fresh s.identities

def warn (w : Warning) : Press Unit :=
  modifyThe Session fun s => { s with warnings := s.warnings ++ [w] }

def warnAll (ws : List Warning) : Press Unit :=
  modifyThe Session fun s => { s with warnings := s.warnings ++ ws }

/-- The random words of a seed, or of the next choice without one. -/
def randomSource : Option Nat → Press RandomSource
  | some seed => return ChaCha.seeded seed
  | none => do
    let s ← getThe Session
    set { s with choices := s.choices + 1 }
    return s.entropy s.choices

/-- Puts a sentence around the error of a step. -/
def within (context : String) (step : Press α) : Press α :=
  tryCatch step fun e => throw (.within context e)

def ofOutcome (r : Outcome α) : Press α :=
  match r with
  | .ok a => return a
  | .error e => throw e

instance : MonadLift Outcome (ExceptT Error (StateM Session)) := ⟨ofOutcome⟩

end Press

end Bitpress
