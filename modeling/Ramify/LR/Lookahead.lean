import Ramify.LR.Collection
import Ramify.LR.First

/-! LALR(1) lookaheads. The lookaheads of a kernel item are found by closing each kernel item
with a placeholder: what the closure adds is generated on the spot, and where the
placeholder arrives the lookaheads of the kernel item propagate. -/

namespace Ramify.LR

abbrev Lookaheads := List (Item × Nat)

/-- A nonterminal at the head of a right side: itself, what can begin the symbols behind it,
and whether these are nullable. -/
structure Head where
  symbol : Nat
  first : Nat
  transparent : Bool

structure Analysis where
  grammar : NumberedGrammar
  firstSets : FirstSets
  heads : Array (List Head)

namespace Analysis

def head? (G : NumberedGrammar) (F : FirstSets) : List Nat → Option Head
  | [] => none
  | s :: beyond =>
    if s < G.nonterminals then some ⟨s, F.ofSeq beyond 0, beyond.all F.isNullable⟩ else none

def ofGrammar (G : NumberedGrammar) : Analysis :=
  let F := G.firstSets
  let heads := G.rules.foldl (fun acc r =>
    match head? G F r.right with
    | some h => acc.modify r.left (h :: ·)
    | none => acc) (Array.replicate G.nonterminals [])
  ⟨G, F, heads⟩

variable (A : Analysis)

/-- The lookaheads with which each nonterminal stands at a mark; `none` if it does not. -/
abbrev Spread := Array (Option Nat)

def addTo (spread : Spread) (s : Nat) (la : Nat) : Spread :=
  match spread.getD s none with
  | some old => if old ||| la = old then spread else spread.setIfInBounds s (some (old ||| la))
  | none => spread.setIfInBounds s (some la)

def spreadSweep (spread : Spread) : Spread :=
  (List.range A.grammar.nonterminals).foldl (fun acc a =>
    match acc.getD a none with
    | none => acc
    | some la =>
      (A.heads.getD a []).foldl (fun acc h =>
        addTo acc h.symbol (if h.transparent then h.first ||| la else h.first)) acc) spread

def spreadFrom (kernel : Lookaheads) : Spread :=
  let G := A.grammar
  let direct := kernel.foldl (fun acc (i, la) =>
    match i.next? G with
    | some s =>
      if s < G.nonterminals then addTo acc s (A.firstSets.ofSeq (i.beyond G) la) else acc
    | none => acc) (Array.replicate G.nonterminals none)
  saturate A.spreadSweep (G.nonterminals * (G.symbolCount + 2) + 1) direct

def initialLookaheads (spread : Spread) : Lookaheads :=
  (List.range A.grammar.rules.size).filterMap fun i =>
    match A.grammar.rules[i]? with
    | some r => (spread.getD r.left none).map fun la => (⟨i, 0⟩, la)
    | none => none

def mergeLookaheads : Lookaheads → Lookaheads → Lookaheads
  | [], other => other
  | kernel, [] => kernel
  | (i, la) :: kernel, (j, lb) :: other =>
    match compare i j with
    | .lt => (i, la) :: mergeLookaheads kernel ((j, lb) :: other)
    | .eq => (i, la ||| lb) :: mergeLookaheads kernel other
    | .gt => (j, lb) :: mergeLookaheads ((i, la) :: kernel) other
termination_by kernel other => kernel.length + other.length

def closure (kernel : Lookaheads) : Lookaheads :=
  mergeLookaheads kernel (A.initialLookaheads (A.spreadFrom kernel))

def reductions (kernel : Lookaheads) : List (Nat × Nat) :=
  (A.closure kernel).filterMap fun (i, la) =>
    if i.isComplete A.grammar then some (i.rule, la) else none

def placeholder : Nat := A.grammar.symbolCount

end Analysis

structure Site where
  state : Nat
  item : Item
deriving DecidableEq

abbrev KernelLookaheads := Array Lookaheads

namespace KernelLookaheads

def get (K : KernelLookaheads) (s : Site) : Nat :=
  ((K.getD s.state []).lookup s.item).getD 0

def add (K : KernelLookaheads) (s : Site) (la : Nat) : KernelLookaheads :=
  K.modify s.state fun kernel =>
    kernel.map fun (i, old) => if i = s.item then (i, old ||| la) else (i, old)

end KernelLookaheads

structure LookaheadTable where
  kernels : KernelLookaheads
  links : Nat
  rounds : Nat

namespace Analysis

variable (A : Analysis) (C : Collection)

/-- What closing one kernel item with the placeholder yields: the successor sites, each with
the lookaheads generated there and whether the placeholder arrives. -/
def emissions (site : Site) : List (Site × Nat × Bool) :=
  let hole := 1 <<< A.placeholder
  (A.closure [(site.item, hole)]).filterMap fun (i, la) => do
    let s ← i.next? A.grammar
    let t ← C.goto? site.state s
    let arrives := la.testBit A.placeholder
    return (⟨t, i.advance⟩, if arrives then la ^^^ hole else la, arrives)

def sites : List Site :=
  (List.range C.size).flatMap fun s => (C.kernels.getD s []).map (⟨s, ·⟩)

def propagate (links : List (Site × List Site)) (K : KernelLookaheads) : KernelLookaheads :=
  links.foldl (fun K (source, targets) =>
    let la := K.get source
    targets.foldl (fun K t => if K.get t ||| la = K.get t then K else K.add t la) K) K

def settle (links : List (Site × List Site)) : Nat → KernelLookaheads → KernelLookaheads × Nat
  | 0, K => (K, 0)
  | fuel + 1, K =>
    let K' := propagate links K
    if K' = K then (K', 1)
    else
      let (K', rounds) := settle links fuel K'
      (K', rounds + 1)

def lookaheads : LookaheadTable :=
  let empty : KernelLookaheads := C.kernels.map (·.map (·, 0))
  let emitted := (sites C).map fun s => (s, A.emissions C s)
  let generated := emitted.foldl (fun K (_, es) =>
    es.foldl (fun K (t, la, _) => if la = 0 then K else K.add t la) K) empty
  let started := generated.add ⟨0, ⟨0, 0⟩⟩ (1 <<< A.grammar.endSymbol)
  let links := emitted.filterMap fun (s, es) =>
    let targets := es.filterMap fun (t, _, arrives) => if arrives then some t else none
    if targets.isEmpty then none else some (s, targets)
  let (kernels, rounds) :=
    settle links (emitted.length * (A.grammar.symbolCount + 1) + 1) started
  ⟨kernels, links.foldl (fun n (_, targets) => n + targets.length) 0, rounds⟩

end Analysis

end Ramify.LR
