/-! Context-free grammars. A grammar is made from a list of rules over names; the names are
numbered in the order of their first occurrence, a start rule for the left side of the
first rule is put in front, and a terminal for the end of the input is added. -/

namespace Ramify

instance instDecidableEqExcept {ε α : Type} [DecidableEq ε] [DecidableEq α] : DecidableEq (Except ε α)
  | .ok a, .ok b => decidable_of_iff (a = b) (by rw [Except.ok.injEq])
  | .error e, .error f => decidable_of_iff (e = f) (by rw [Except.error.injEq])
  | .ok _, .error _ => isFalse (by rintro ⟨⟩)
  | .error _, .ok _ => isFalse (by rintro ⟨⟩)

inductive Symbol where
  | term (index : Nat)
  | nonterm (index : Nat)
deriving DecidableEq, Inhabited

inductive NamedSymbol where
  | term (name : String)
  | nonterm (name : String)
deriving DecidableEq

structure Rule where
  line : Nat
  label : Option String := none
  left : String
  right : List NamedSymbol
deriving DecidableEq

structure Production where
  index : Nat
  label : String
  lhs : Nat
  ordinal : Nat
  rhs : List Symbol
deriving DecidableEq, Inhabited

/-- Production `0` is the start production, nonterminal `0` its left side, and the last
terminal is the end of the input. -/
structure Grammar where
  terminals : Array String
  nonterminals : Array String
  productions : Array Production
deriving DecidableEq

inductive GrammarError where
  | unexpected (line : Nat) (char : Char)
  | malformed (line : Nat)
  | empty
  | startFirst
  | startReserved (line : Nat)
  | endReserved (line : Nat)
  | duplicateLabel (line : Nat) (label : String)
  | withoutProductions (names : List String)
deriving DecidableEq

namespace Grammar

def startName : String := "Start"

def endName : String := "end"

def startLabel : String := "start"

namespace Rule

def terminals (r : Rule) : List String :=
  r.right.filterMap fun
    | .term t => some t
    | .nonterm _ => none

def nonterminals (r : Rule) : List String :=
  r.left :: r.right.filterMap fun
    | .nonterm n => some n
    | .term _ => none

end Rule

def distinct (names : List String) : List String :=
  (names.foldl (fun seen n => if seen.contains n then seen else n :: seen) []).reverse

/-- The label of a rule that has none: its left side in lower case, and its ordinal. -/
def defaultLabel (left : String) (ordinal : Nat) : String :=
  left.decapitalize ++ toString ordinal

def countLeft (left : String) (rules : List Rule) : Nat :=
  rules.countP (·.left == left)

/-- Checks the rules one by one; `earlier` are those before, the latest first, and `labels`
their labels. -/
def labelled (earlier : List Rule) (labels : List String) :
    List Rule → Except GrammarError (List (Rule × Nat × String))
  | [] => .ok []
  | r :: rules => do
    if r.left = startName then throw (.startReserved r.line)
    if r.right.contains (.term endName) then throw (.endReserved r.line)
    let ordinal := countLeft r.left earlier + 1
    let label := r.label.getD (defaultLabel r.left ordinal)
    if labels.contains label then throw (.duplicateLabel r.line label)
    return (r, ordinal, label) :: (← labelled (r :: earlier) (label :: labels) rules)

def numbered (terminals nonterminals : List String) : NamedSymbol → Symbol
  | .term t => .term (terminals.idxOf t)
  | .nonterm n => .nonterm (nonterminals.idxOf n)

def ofRules (rules : List Rule) : Except GrammarError Grammar := do
  let first :: _ := rules | throw .empty
  if first.left = startName then throw .startFirst
  let checked ← labelled [] [startLabel] rules
  let terminals := distinct (rules.flatMap Rule.terminals ++ [endName])
  let nonterminals := distinct (startName :: rules.flatMap Rule.nonterminals)
  let start : Production :=
    ⟨0, startLabel, 0, 1, [.nonterm (nonterminals.idxOf first.left)]⟩
  let productions := checked.zipIdx.map fun ((r, ordinal, label), i) =>
    ({ index := i + 1, label, lhs := nonterminals.idxOf r.left, ordinal,
       rhs := r.right.map (numbered terminals nonterminals) } : Production)
  let undefined := nonterminals.filter fun n =>
    n != startName && !rules.any (·.left == n)
  if undefined ≠ [] then throw (.withoutProductions undefined)
  return ⟨terminals.toArray, nonterminals.toArray, (start :: productions).toArray⟩

def endTerminal (g : Grammar) : Nat := g.terminals.size - 1

end Grammar

end Ramify
