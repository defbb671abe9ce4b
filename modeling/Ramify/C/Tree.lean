import Ramify.C.Token
import Ramify.C.Vocabulary

/-! Syntax trees. While the parser works, nodes live in a pool that all its paths share; a
node's children come before it. A finished tree is taken out of the pool by its root. -/

namespace Ramify.C

structure Declared where
  name : String
  token : Option Nat
  span : Span
deriving DecidableEq

/-- How many type specifiers a list holds, and whether a typedef name is among them. The number is
one of 32 bits; a tree has no more specifiers than nodes. -/
structure Specifiers where
  types : Nat := 0
  named : Bool := false
deriving DecidableEq

namespace Specifiers

def add (a b : Specifiers) : Specifiers := ⟨a.types + b.types, a.named || b.named⟩

def isConsistent (a : Specifiers) : Bool := !a.named || a.types == 1

end Specifiers

structure Annotations where
  typedef : Bool := false
  declares : List Declared := []
  params : Option (List Declared) := none
  spec : Specifiers := {}
deriving DecidableEq

inductive NodeKind where
  | terminal (token : Nat)
  | nonterminal (production : Nat)
deriving DecidableEq

structure Part where
  kind : NodeKind
  span : Span
  annotations : Annotations := {}
deriving DecidableEq

structure PoolNode extends Part where
  children : List Nat
deriving DecidableEq

structure Pool where
  nodes : Array PoolNode := #[]

namespace Pool

def size (pool : Pool) : Nat := pool.nodes.size

def push (pool : Pool) (node : PoolNode) : Pool × Nat := (⟨pool.nodes.push node⟩, pool.size)

def part (pool : Pool) (id : Nat) : Part :=
  match pool.nodes[id]? with
  | some n => n.toPart
  | none => ⟨.terminal id, {}, {}⟩

end Pool

inductive Tree where
  | leaf (token : Nat) (span : Span)
  | node (production : Nat) (span : Span) (annotations : Annotations) (children : List Tree)

def Pool.tree (pool : Pool) (id : Nat) : Tree :=
  match pool.nodes[id]? with
  | none => .leaf id {}
  | some n =>
    match n.kind with
    | .terminal token => .leaf token n.span
    | .nonterminal production =>
      .node production n.span n.annotations (n.children.map fun c =>
        if _h : c < id then pool.tree c else .leaf c {})
termination_by id

namespace Tree

def span : Tree → Span
  | leaf _ s => s
  | node _ s _ _ => s

def annotations : Tree → Annotations
  | leaf _ _ => {}
  | node _ _ a _ => a

def part : Tree → Part
  | leaf t s => ⟨.terminal t, s, {}⟩
  | node p s a _ => ⟨.nonterminal p, s, a⟩

def children : Tree → List Tree
  | leaf _ _ => []
  | node _ _ _ cs => cs

def token? : Tree → Option Nat
  | leaf t _ => some t
  | node .. => none

mutual

def size : Tree → Nat
  | leaf _ _ => 1
  | node _ _ _ children => sizes children + 1

def sizes : List Tree → Nat
  | [] => 0
  | t :: rest => t.size + sizes rest

end

theorem size_pos : (t : Tree) → 0 < t.size
  | leaf _ _ => Nat.one_pos
  | node _ _ _ _ => Nat.succ_pos _

structure Entry where
  kind : NodeKind
  parent : Option Nat
  children : List Nat
  span : Span
  annotations : Annotations

def childNumbers (first : Nat) : List Tree → List Nat
  | [] => []
  | t :: rest => first :: childNumbers (first + t.size) rest

mutual

def entriesFrom (parent : Option Nat) (number : Nat) : Tree → List Entry
  | leaf token span => [⟨.terminal token, parent, [], span, {}⟩]
  | node production span annotations children =>
    ⟨.nonterminal production, parent, childNumbers (number + 1) children, span, annotations⟩ ::
      childEntries number (number + 1) children

def childEntries (parent first : Nat) : List Tree → List Entry
  | [] => []
  | t :: rest => entriesFrom (some parent) first t ++ childEntries parent (first + t.size) rest

end

def entries (t : Tree) : List Entry := entriesFrom none 0 t

def ancestors (entries : Array Entry) : Nat → Nat → List Nat
  | 0, _ => []
  | fuel + 1, id =>
    match (entries[id]?).bind Entry.parent with
    | some p => p :: ancestors entries fuel p
    | none => []

def find (V : Vocabulary) (label : String) (t : Tree) : List (Nat × List Nat) :=
  let entries := t.entries.toArray
  (List.range entries.size).filterMap fun id =>
    match (entries[id]?).map Entry.kind with
    | some (.nonterminal p) =>
      if V.label p == label then some (id, ancestors entries entries.size id) else none
    | _ => none

mutual

def text (V : Vocabulary) (tokens : Array Token) : Tree → String
  | leaf token _ => ((tokens[token]?).map Token.text).getD ""
  | node production _ _ children =>
    "(" ++ V.label production ++ texts V tokens children ++ ")"

def texts (V : Vocabulary) (tokens : Array Token) : List Tree → String
  | [] => ""
  | t :: rest => " " ++ text V tokens t ++ texts V tokens rest

end

end Tree

end Ramify.C
