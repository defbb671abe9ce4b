import Ramify.Grammar.Notation
import Ramify.Log
import Ramify.LR.Conflict

namespace Ramify.LR

inductive ConflictPolicy where
  | report
  | reject
deriving DecidableEq

structure Options where
  preferShift : List String := []
  policy : ConflictPolicy := .report

structure Construction where
  grammar : Grammar
  numbered : NumberedGrammar
  analysis : Analysis
  collection : Collection
  lookaheads : LookaheadTable
  cells : Array (List Cell)

inductive BuildError where
  | grammar (e : GrammarError)
  | unresolved (conflicts : List Conflict) (terminals : Array String)

def BuildError.message : BuildError → String
  | .grammar e => e.message
  | .unresolved conflicts terminals =>
    s!"{conflicts.length} unresolved conflicts: " ++
      "; ".intercalate ((conflicts.take 5).map (·.named terminals))

def grammarRecord (g : Grammar) : Record :=
  ⟨.info, s!"grammar: {g.terminals.size} terminals, {g.nonterminals.size} non-terminals, " ++
    s!"{g.productions.size} productions"⟩

def Collection.record (C : Collection) : Record := ⟨.info, s!"LR(0): {C.size} states"⟩

def LookaheadTable.record (L : LookaheadTable) : Record :=
  ⟨.debug, s!"LALR(1): {L.links} propagation links, fixpoint after {L.rounds} rounds"⟩

namespace Construction

def ofGrammar (preferShift : List String) (g : Grammar) : Construction :=
  let G := NumberedGrammar.ofGrammar g
  let A := Analysis.ofGrammar G
  let C := G.collection
  let L := A.lookaheads C
  let prefers := preferShift.filterMap fun name => g.terminals.findIdx? (· == name)
  let cells := (Array.range C.size).map fun s =>
    cellsOf G prefers s (C.transitions.getD s []) (A.reductions (L.kernels.getD s []))
  ⟨g, G, A, C, L, cells⟩

variable (K : Construction)

def conflicts : List Conflict := K.cells.toList.flatten.filterMap Cell.conflict

def kept : List Conflict := K.conflicts.filter (·.resolution == .kept)

def table : Table where
  version := Table.formatVersion
  terminals := K.grammar.terminals
  nonterminals := K.grammar.nonterminals
  productions := K.grammar.productions
  endMark := K.grammar.endTerminal
  actions := K.cells.map fun row => (row.map fun c => (c.terminal, c.actions)).toArray
  gotos := K.collection.transitions.map fun row => (gotosOf K.numbered row).toArray

def check (policy : ConflictPolicy) : Except BuildError Unit :=
  if policy = .reject && !K.kept.isEmpty then
    .error (.unresolved K.kept K.grammar.terminals)
  else .ok ()

def records (options : Options) : List Record :=
  let g := K.grammar
  let head := [grammarRecord g, K.collection.record, K.lookaheads.record]
  let unknown := (options.preferShift.filter (!g.terminals.contains ·)).map fun name =>
    (⟨.warn, s!"prefer-shift terminal `{name}` is not in the grammar"⟩ : Record)
  let conflicts := K.conflicts.map fun c => (⟨.debug, c.named g.terminals⟩ : Record)
  let kept := K.kept.length
  let outcome : List Record :=
    if options.policy = .reject && 0 < kept then []
    else
      let resolved := K.conflicts.length - kept
      let warning : List Record := if kept = 0 then [] else
        [⟨.warn, s!"{kept} conflicting cells kept for backtracking ({resolved} resolved by shift)"⟩]
      warning ++
        [⟨.info, s!"table: {K.table.stateCount} states, {K.table.conflictCount} conflicting cells"⟩]
  head ++ unknown ++ conflicts ++ outcome

end Construction

def construct (text : String) (options : Options) : Except BuildError Construction := do
  match Grammar.parse text with
  | .error e => throw (.grammar e)
  | .ok g =>
    let K := Construction.ofGrammar options.preferShift g
    K.check options.policy
    return K

def constructRecords (text : String) (options : Options) : List Record :=
  match Grammar.parse text with
  | .error _ => []
  | .ok g => (Construction.ofGrammar options.preferShift g).records options

end Ramify.LR
