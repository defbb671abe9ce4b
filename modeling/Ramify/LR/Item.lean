import Ramify.Grammar

/-! Numbered grammars and their items. Nonterminals are numbered from zero, terminals after
them, so that a symbol is one number; the last symbol is the end of the input. -/

namespace Ramify.LR

structure NumberedRule where
  left : Nat
  right : List Nat
deriving DecidableEq, Inhabited

structure NumberedGrammar where
  rules : Array NumberedRule
  nonterminals : Nat
  symbolCount : Nat

namespace NumberedGrammar

variable (G : NumberedGrammar)

def terminals : Nat := G.symbolCount - G.nonterminals

def endSymbol : Nat := G.symbolCount - 1

def rulesOf (a : Nat) : List Nat :=
  (List.range G.rules.size).filter fun i => (G.rules[i]?).any (·.left == a)

def right (rule : Nat) : List Nat := ((G.rules[rule]?).map NumberedRule.right).getD []

def symbolNumber (n : Nat) : Symbol → Nat
  | .nonterm i => i
  | .term i => n + i

def ofGrammar (g : Grammar) : NumberedGrammar where
  rules := g.productions.map fun p =>
    ⟨p.lhs, p.rhs.map (symbolNumber g.nonterminals.size)⟩
  nonterminals := g.nonterminals.size
  symbolCount := g.nonterminals.size + g.terminals.size

end NumberedGrammar

structure Item where
  rule : Nat
  dot : Nat
deriving DecidableEq, Inhabited

namespace Item

instance : Ord Item where
  compare i j := (compare i.rule j.rule).then (compare i.dot j.dot)

variable (G : NumberedGrammar) (i : Item)

def next? : Option Nat := (G.right i.rule)[i.dot]?

def beyond : List Nat := (G.right i.rule).drop (i.dot + 1)

def isComplete : Bool := (G.right i.rule).length ≤ i.dot

def advance : Item := ⟨i.rule, i.dot + 1⟩

end Item

def saturate {α : Type} [DecidableEq α] (f : α → α) : Nat → α → α
  | 0, a => a
  | fuel + 1, a =>
    let b := f a
    if b = a then a else saturate f fuel b

/-- The elements below `bound` of a set of numbers, which is held as the bits of a number. -/
def elements (bound : Nat) (set : Nat) : List Nat := (List.range bound).filter set.testBit

end Ramify.LR
