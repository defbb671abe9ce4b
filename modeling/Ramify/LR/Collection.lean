import Ramify.LR.Item

/-! The collection of LR(0) item sets. A state is given by its kernel, the items before
closing, sorted. -/

namespace Ramify.LR

structure Collection where
  kernels : Array (List Item)
  /-- Per state, the successors sorted by symbol. -/
  transitions : Array (List (Nat × Nat))

namespace Collection

def size (C : Collection) : Nat := C.kernels.size

def goto? (C : Collection) (state symbol : Nat) : Option Nat :=
  (C.transitions.getD state []).lookup symbol

end Collection

namespace NumberedGrammar

variable (G : NumberedGrammar)

def mark (reached : Array Bool) (s : Nat) : Array Bool :=
  if reached.getD s true then reached else reached.setIfInBounds s true

def reachSweep (reached : Array Bool) : Array Bool :=
  G.rules.foldl (fun acc r =>
    match r.right with
    | s :: _ => if acc.getD r.left false then mark acc s else acc
    | [] => acc) reached

def reachedFrom (kernel : List Item) : Array Bool :=
  let direct := (kernel.filterMap (·.next? G)).foldl mark (Array.replicate G.nonterminals false)
  saturate G.reachSweep (G.nonterminals + 1) direct

def initialItems (reached : Array Bool) : List Item :=
  (List.range G.rules.size).filterMap fun i =>
    if (G.rules[i]?).any (fun r => reached.getD r.left false) then some ⟨i, 0⟩ else none

def mergeItems : List Item → List Item → List Item
  | [], other => other
  | kernel, [] => kernel
  | i :: kernel, j :: other =>
    if (compare i j).isLE then i :: mergeItems kernel (j :: other) else j :: mergeItems (i :: kernel) other
termination_by kernel other => kernel.length + other.length

def closure (kernel : List Item) : List Item :=
  mergeItems kernel ((G.initialItems (G.reachedFrom kernel)).filter (!kernel.contains ·))

def insertUnder (s : Nat) (i : Item) : List (Nat × List Item) → List (Nat × List Item)
  | [] => [(s, [i])]
  | (t, items) :: rest =>
    if s < t then (s, [i]) :: (t, items) :: rest
    else if s = t then (t, i :: items) :: rest
    else (t, items) :: insertUnder s i rest

def successors (closed : List Item) : List (Nat × List Item) :=
  closed.foldr (fun i acc =>
    match i.next? G with
    | some s => insertUnder s i.advance acc
    | none => acc) []

def intern (kernels : Array (List Item)) (kernel : List Item) : Array (List Item) × Nat :=
  match kernels.findIdx? (· == kernel) with
  | some t => (kernels, t)
  | none => (kernels.push kernel, kernels.size)

def internAll (kernels : Array (List Item)) :
    List (Nat × List Item) → Array (List Item) × List (Nat × Nat)
  | [] => (kernels, [])
  | (s, kernel) :: rest =>
    let (kernels, t) := intern kernels kernel
    let (kernels, row) := internAll kernels rest
    (kernels, (s, t) :: row)

def explore : Nat → Nat → Collection → Collection
  | 0, _, C => C
  | fuel + 1, state, C =>
    match C.kernels[state]? with
    | none => C
    | some kernel =>
      let (kernels, row) := internAll C.kernels (G.successors (G.closure kernel))
      explore fuel (state + 1) ⟨kernels, C.transitions.push row⟩

def itemCount : Nat := G.rules.foldl (fun n r => n + r.right.length + 1) 0

/-- The states reachable from the initial item of the first rule. Kernels are distinct sets
of items, which bounds their number. -/
def collection : Collection :=
  G.explore (Nat.pow 2 G.itemCount + 1) 0 ⟨#[[⟨0, 0⟩]], #[]⟩

end NumberedGrammar

end Ramify.LR
