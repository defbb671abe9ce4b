import Ramify.LR.Item

namespace Ramify.LR

structure FirstSets where
  nullable : Array Bool
  first : Array Nat

namespace FirstSets

variable (F : FirstSets)

def isNullable (s : Nat) : Bool := F.nullable.getD s false

def ofSymbol (s : Nat) : Nat := F.first.getD s 0

def ofSeq : List Nat → Nat → Nat
  | [], la => la
  | s :: seq, la => if F.isNullable s then F.ofSymbol s ||| ofSeq seq la else F.ofSymbol s

end FirstSets

namespace NumberedGrammar

variable (G : NumberedGrammar)

def nullableSweep (nullable : Array Bool) : Array Bool :=
  G.rules.foldl (fun acc r =>
    if r.right.all (acc.getD · false) then acc.setIfInBounds r.left true else acc) nullable

def nullable : Array Bool :=
  saturate G.nullableSweep (G.symbolCount + 1) (Array.replicate G.symbolCount false)

def firstSweep (nullable : Array Bool) (first : Array Nat) : Array Nat :=
  G.rules.foldl (fun acc r =>
    let here := acc.getD r.left 0
    let found := FirstSets.ofSeq ⟨nullable, acc⟩ r.right 0
    if here ||| found = here then acc else acc.setIfInBounds r.left (here ||| found)) first

def firstSets : FirstSets :=
  let nullable := G.nullable
  let start := (Array.range G.symbolCount).map fun s =>
    if s < G.nonterminals then 0 else 1 <<< s
  ⟨nullable, saturate (G.firstSweep nullable) (G.symbolCount * G.symbolCount + 1) start⟩

end NumberedGrammar

end Ramify.LR
