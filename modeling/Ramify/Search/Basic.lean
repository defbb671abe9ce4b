import Ramify.Log
import Ramify.Table

/-! What a search for parses consists of: the builder that makes values of tokens and
productions, the paths that are explored, counters, events and outcomes. -/

namespace Ramify

/-- Why a production makes no value: it is wrong where it stands, or it has no meaning at
all. -/
inductive Refusal (ε : Type) where
  | reject (error : ε)
  | undefined
deriving DecidableEq

/-- Makes values. Along each path a context is threaded, and all paths share one store, which
a step may extend even when it fails. A rejection ends one path, a production without meaning
the whole search. The terminal of a token is its index in the table and the error at a token says
where it stands, so neither depends on the store. -/
structure Builder (τ ν κ ε δ : Type) where
  terminal : τ → Option Nat
  initial : κ
  shift : δ → κ → τ → Nat → δ × Except ε (κ × ν)
  reduce : δ → κ → Production → List ν → δ × Except (Refusal ε) (κ × ν)
  syntaxError : τ → Nat → ε

namespace Search

structure Limits where
  maxSteps : Nat := 2000000
  maxCandidates : Nat := 256
deriving DecidableEq

structure Stats where
  steps : Nat := 0
  shifts : Nat := 0
  reductions : Nat := 0
  checkpoints : Nat := 0
  backtracks : Nat := 0
  rejections : Nat := 0
  accepts : Nat := 0
  maxDepth : Nat := 0
deriving DecidableEq

/-- A partial parse: the next position, the states and the values from the top down. -/
structure Path (ν κ : Type) where
  position : Nat
  states : List Nat
  values : List ν
  context : κ
deriving DecidableEq

/-- A path to return to, the alternative taken there last, and how many checkpoints there are
up to this one. -/
structure Checkpoint (ν κ : Type) where
  path : Path ν κ
  alternative : Nat
  depth : Nat
deriving DecidableEq

inductive Event (ε : Type) where
  | shift (position terminal state : Nat)
  | reduce (position production state : Nat)
  | checkpoint (position state alternatives depth : Nat)
  | backtrack (position alternative depth : Nat)
  | reject (position : Nat) (reason : ε)
  | accept (position candidate : Nat)
deriving DecidableEq

def Event.text {ε : Type} (reasonText : ε → String) : Event ε → String
  | .shift p t s => s!"@{p} shift t{t} -> s{s}"
  | .reduce p r s => s!"@{p} reduce p{r} -> s{s}"
  | .checkpoint p s n d => s!"@{p} checkpoint s{s} x{n} [{d}]"
  | .backtrack p a d => s!"@{p} backtrack alt {a} [{d}]"
  | .reject p e => s!"@{p} reject: {reasonText e}"
  | .accept p c => s!"@{p} accept #{c}"

inductive Failure (ε : Type) where
  | noParse (error : ε)
  | searchLimit (steps : Nat)
  | candidateLimit (limit : Nat)
  | missingGoto (state nonterminal : Nat)
  | undefined (production : Nat)
  | emptyInput
deriving DecidableEq

def Failure.message {ε : Type} (errorText : ε → String) : Failure ε → String
  | .noParse e => s!"no parse: {errorText e}"
  | .searchLimit steps => s!"search exceeded {steps} steps"
  | .candidateLimit limit => s!"search found more than {limit} candidates"
  | .missingGoto state n => s!"no goto from state {state} on non-terminal {n}"
  | .undefined p => s!"production {p} has no meaning"
  | .emptyInput => "empty token stream"

end Search

end Ramify
