import Ramify.Grammar

/-! Parse tables. A cell holds a list of actions, to be tried in order; a row is a list of
cells sorted by terminal. -/

namespace Ramify

inductive Action where
  | shift (state : Nat)
  | reduce (production : Nat)
  | accept
deriving DecidableEq, Inhabited

namespace Action

def text : Action → String
  | shift s => s!"s{s}"
  | reduce p => s!"r{p}"
  | accept => "acc"

def isShift : Action → Bool
  | shift _ => true
  | _ => false

end Action

structure Table where
  version : Nat
  terminals : Array String
  nonterminals : Array String
  productions : Array Production
  endMark : Nat
  actions : Array (Array (Nat × List Action))
  gotos : Array (Array (Nat × Nat))
deriving DecidableEq

inductive Reference where
  | terminal | nonterminal | state | production | gotoRow
deriving DecidableEq

def Reference.text : Reference → String
  | terminal => "terminal"
  | nonterminal => "non-terminal"
  | state => "state"
  | production => "production"
  | gotoRow => "goto row"

inductive TableError where
  | malformed
  | version (found : Nat)
  | outOfRange (what : Reference) (index : Nat)
deriving DecidableEq

namespace Table

def formatVersion : Nat := 1

end Table

def TableError.message : TableError → String
  | .malformed => "malformed table"
  | .version found => s!"table format version {found}, expected {Table.formatVersion}"
  | .outOfRange what index => s!"table references {what.text} {index} out of range"

namespace Table

/-- Halves the `size` keys from `base` on until one is left: the last whose key is at most
`key`, if the keys are sorted. -/
def bisect {α : Type} (row : Array (Nat × α)) (key base size : Nat) : Nat :=
  if size ≤ 1 then base
  else
    let half := size / 2
    let middle := base + half
    let above := (row[middle]?).any fun (k, _) => key < k
    bisect row key (if above then base else middle) (size - half)
termination_by size

def find? {α : Type} (row : Array (Nat × α)) (key : Nat) : Option α :=
  match row[bisect row key 0 row.size]? with
  | some (k, a) => if k = key then some a else none
  | none => none

variable (T : Table)

def stateCount : Nat := T.actions.size

def actionsAt (state terminal : Nat) : List Action :=
  ((T.actions[state]?).bind fun row => find? row terminal).getD []

def goto? (state nonterminal : Nat) : Option Nat :=
  (T.gotos[state]?).bind fun row => find? row nonterminal

def terminal? (name : String) : Option Nat := T.terminals.findIdx? (· == name)

def nonterminal? (name : String) : Option Nat := T.nonterminals.findIdx? (· == name)

def production? (label : String) : Option Production := T.productions.find? (·.label == label)

def conflictCount : Nat :=
  T.actions.foldl (fun n row => n + row.countP fun (_, acts) => 1 < acts.length) 0

def symbolName : Symbol → String
  | .term t => T.terminals.getD t ""
  | .nonterm n => T.nonterminals.getD n ""

def productionText (index : Nat) : String :=
  match T.productions[index]? with
  | none => s!"<production {index}>"
  | some p => T.symbolName (.nonterm p.lhs) ++ " ->" ++
      String.join (p.rhs.map fun s => " " ++ T.symbolName s)

def checkIndex (what : Reference) (index bound : Nat) : Except TableError Unit :=
  if index < bound then .ok () else .error (.outOfRange what index)

def checkSymbol : Symbol → Except TableError Unit
  | .term t => checkIndex .terminal t T.terminals.size
  | .nonterm n => checkIndex .nonterminal n T.nonterminals.size

def checkAction : Action → Except TableError Unit
  | .shift s => checkIndex .state s T.stateCount
  | .reduce p => checkIndex .production p T.productions.size
  | .accept => .ok ()

def validate : Except TableError Unit := do
  if T.version ≠ formatVersion then throw (.version T.version)
  checkIndex .terminal T.endMark T.terminals.size
  for p in T.productions.toList do
    checkIndex .nonterminal p.lhs T.nonterminals.size
    for s in p.rhs do T.checkSymbol s
  for row in T.actions.toList do
    for (t, acts) in row.toList do
      checkIndex .terminal t T.terminals.size
      for a in acts do T.checkAction a
  if T.gotos.size ≠ T.stateCount then throw (.outOfRange .gotoRow T.gotos.size)
  for row in T.gotos.toList do
    for (n, s) in row.toList do
      checkIndex .nonterminal n T.nonterminals.size
      checkIndex .state s T.stateCount

end Table

end Ramify
