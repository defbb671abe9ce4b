import Ramify.LR.Lookahead

/-! Grammars given by bare numbers may name symbols that do not exist. Such a symbol does no
harm as long as no computation has to look behind everything before it: this module says
which grammars can be analysed. Counts of symbols are words of 64 bits, and their sum wraps
around, so that there may be fewer symbols than nonterminals. A lookahead may be any
number. -/

namespace Ramify.LR

def countLimit : Nat := Nat.pow 2 32

/-- Lists of symbols, each with its left side first, as rules; none if one is empty or its
left side is no nonterminal, if there is none at all, or if there are too many
nonterminals. -/
def NumberedGrammar.ofLists? (lists : List (List Nat)) (nonterminals terminals : UInt64) :
    Option NumberedGrammar := do
  let rules ← lists.mapM fun
    | [] => none
    | left :: right => if left < nonterminals.toNat then some ⟨left, right⟩ else none
  if rules.isEmpty || countLimit < nonterminals.toNat then none
  else some ⟨rules.toArray, nonterminals.toNat, (nonterminals + terminals).toNat⟩

namespace Analysis

variable (A : Analysis)

def readable : List Nat → Bool
  | [] => true
  | s :: seq =>
    s < A.grammar.symbolCount && (!A.firstSets.isNullable s || readable seq)

def readableItem (i : Item) : Bool :=
  match i.next? A.grammar with
  | some s => A.grammar.nonterminals ≤ s || A.readable (i.beyond A.grammar)
  | none => true

def readableAll (C : Collection) : Bool :=
  A.grammar.rules.all (fun r => r.left < A.grammar.symbolCount && A.readable r.right) &&
    C.kernels.all fun kernel => (A.grammar.closure kernel).all A.readableItem

def beginnings (seq la : List Nat) : List Nat :=
  let own := elements A.grammar.symbolCount (A.firstSets.ofSeq seq 0)
  if seq.all A.firstSets.isNullable then (own ++ la).mergeSort.eraseDups else own

end Analysis

def NumberedGrammar.analysis? (G : NumberedGrammar) (C : Collection) : Option Analysis :=
  if countLimit < G.symbolCount then none
  else
    let A := Analysis.ofGrammar G
    if A.readableAll C then some A else none

end Ramify.LR
