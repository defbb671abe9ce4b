import Ramify.LR.Lookahead
import Ramify.Table

/-! Cells of the table and their conflicts. A cell with several actions is a conflict; it is
kept, for the parser to try all of them, unless its terminal prefers shifting. -/

namespace Ramify.LR

inductive ConflictKind where
  | shiftReduce | reduceReduce
deriving DecidableEq

def ConflictKind.text : ConflictKind → String
  | shiftReduce => "shift/reduce"
  | reduceReduce => "reduce/reduce"

inductive Resolution where
  | preferShift | kept
deriving DecidableEq

def Resolution.text : Resolution → String
  | preferShift => "resolved by shift"
  | kept => "kept"

structure Conflict where
  state : Nat
  terminal : Nat
  kind : ConflictKind
  actions : List Action
  resolution : Resolution
deriving DecidableEq

namespace Conflict

def text (c : Conflict) : String :=
  let actions := " ".intercalate (c.actions.map Action.text)
  s!"state {c.state} terminal {c.terminal}: {c.kind.text} [{actions}] {c.resolution.text}"

def named (terminals : Array String) (c : Conflict) : String :=
  c.text ++ " on `" ++ terminals.getD c.terminal "" ++ "`"

end Conflict

structure Cell where
  terminal : Nat
  actions : List Action
  conflict : Option Conflict := none

namespace Cell

def ofActions (state terminal : Nat) (prefersShift : Bool) (actions : List Action) : Cell :=
  if actions.length ≤ 1 then ⟨terminal, actions, none⟩
  else
    let hasShift := actions.any Action.isShift
    let kind := if hasShift then .shiftReduce else .reduceReduce
    let resolution := if hasShift && prefersShift then .preferShift else .kept
    let left := if hasShift && prefersShift then actions.filter Action.isShift else actions
    ⟨terminal, left, some ⟨state, terminal, kind, actions, resolution⟩⟩

end Cell

variable (G : NumberedGrammar)

def actionsFor (transitions : List (Nat × Nat)) (reductions : List (Nat × Nat))
    (terminal : Nat) : List Action :=
  let symbol := G.nonterminals + terminal
  let shift := (transitions.lookup symbol).toList.map Action.shift
  let complete := reductions.filter fun (_, la) => la.testBit symbol
  let reduce := (complete.filter (·.1 != 0)).map fun (rule, _) => Action.reduce rule
  let accept :=
    if symbol = G.endSymbol && complete.any (·.1 == 0) then [Action.accept] else []
  shift ++ reduce ++ accept

def cellsOf (prefers : List Nat) (state : Nat) (transitions : List (Nat × Nat))
    (reductions : List (Nat × Nat)) : List Cell :=
  (List.range G.terminals).filterMap fun t =>
    match actionsFor G transitions reductions t with
    | [] => none
    | actions => some (.ofActions state t (prefers.contains t) actions)

def gotosOf (transitions : List (Nat × Nat)) : List (Nat × Nat) :=
  transitions.filter fun (s, _) => s < G.nonterminals

end Ramify.LR
