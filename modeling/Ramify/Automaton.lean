import Ramify.Cursor
import Ramify.Log
import Ramify.Text.Hex
import Ramify.Text.Quoted
import Ramify.Text.Utf8

/-! Finite automata over bytes. The edges are labelled by conditions, which are tried in
the order of their declaration: the first condition that holds for the byte and is either
forbidden in the state or has an edge there decides. A run follows edges as long as it
can; an automaton that backtracks then returns to the last accepting state on its way. -/

namespace Ramify

structure Automaton (σ κ : Type) where
  name : String
  start : σ
  conditions : List (κ × (UInt8 → Bool))
  edge : σ → κ → Option σ
  accepts : σ → Bool
  forbids : σ → κ → Bool := fun _ _ => false
  backtracks : Bool := false

namespace Automaton

inductive FaultKind where
  | unidentifiedToken | invalidCharacter
deriving DecidableEq

def FaultKind.text : FaultKind → String
  | .unidentifiedToken => "unidentified token"
  | .invalidCharacter => "invalid character"

structure Fault where
  kind : FaultKind
  span : Span
  automaton : String
deriving DecidableEq

def Fault.message (f : Fault) : String :=
  s!"{f.kind.text} in {f.automaton} at {f.span.text}"

inductive Next (σ : Type) where
  | goto (target : σ)
  | forbidden
  | stuck

structure Walk (σ : Type) where
  edges : List (UInt8 × σ) := []
  forbidden : Bool := false

variable {σ κ : Type} (A : Automaton σ κ)

def next (s : σ) (b : UInt8) : Next σ :=
  let decide? := fun ((c, holds) : κ × (UInt8 → Bool)) =>
    if !holds b then none
    else if A.forbids s c then some .forbidden
    else (A.edge s c).map .goto
  (A.conditions.findSome? decide?).getD .stuck

def walk (s : σ) : List UInt8 → Walk σ
  | [] => {}
  | b :: rest =>
    match A.next s b with
    | .goto t =>
      let w := walk t rest
      { w with edges := (b, t) :: w.edges }
    | .forbidden => { forbidden := true }
    | .stuck => {}

def Walk.last (s : σ) (w : Walk σ) : σ := (w.edges.getLast?.map Prod.snd).getD s

def lastAccepting? (s : σ) : List (UInt8 × σ) → Option (σ × Nat)
  | [] => if A.accepts s then some (s, 0) else none
  | (_, t) :: edges =>
    match lastAccepting? t edges with
    | some (u, n) => some (u, n + 1)
    | none => if A.accepts s then some (s, 0) else none

def run (c : Cursor) : Except Fault σ × Cursor :=
  let w := A.walk A.start c.rest
  let last := w.last A.start
  let reached := c.skip w.edges.length
  if w.forbidden then
    let beyond := reached.advance
    (.error ⟨.invalidCharacter, c.spanTo beyond, A.name⟩, beyond)
  else if A.accepts last then (.ok last, reached)
  else
    match if A.backtracks then A.lastAccepting? A.start w.edges else none with
    | some (accepted, n) => (.ok accepted, c.skip n)
    | none => (.error ⟨.unidentifiedToken, c.spanTo reached, A.name⟩, reached)

def ofLists [BEq σ] [BEq κ] (name : String) (start : σ)
    (conditions : List (κ × (UInt8 → Bool))) (edges : List (σ × κ × σ))
    (accepting : List σ) (forbidden : List (σ × κ)) (backtracks : Bool) : Automaton σ κ where
  name := name
  start := start
  conditions := conditions
  edge s c := edges.reverse.findSome? fun (s', c', t) => if s' == s && c' == c then some t else none
  accepts s := accepting.contains s
  forbids s c := forbidden.any fun (s', c') => s' == s && c' == c
  backtracks := backtracks

def byteText (b : UInt8) : String :=
  if 0x21 ≤ b && b ≤ 0x7e then String.singleton (Char.ofNat b.toNat)
  else "0x" ++ String.ofList (Text.hexByte b)

def edgeRecords (state : σ → String) (s : σ) : List (UInt8 × σ) → List Record
  | [] => []
  | (b, t) :: edges =>
    ⟨.trace, s!"{A.name}: {state s} --{byteText b}--> {state t}"⟩ :: edgeRecords state t edges

def records (state : σ → String) (c : Cursor) : List Record :=
  let w := A.walk A.start c.rest
  let back :=
    if w.forbidden || A.accepts (w.last A.start) || !A.backtracks then []
    else match A.lastAccepting? A.start w.edges with
      | some (s, _) => [⟨.trace, s!"{A.name}: back to {state s}"⟩]
      | none => []
  let accepted :=
    match A.run c with
    | (.ok s, stop) =>
      let lexeme := c.sliceTo stop
      let shown := (Text.Utf8.decode? lexeme).getD (Text.hexBytes lexeme)
      [⟨.trace, s!"{A.name}: accept {state s} {Text.quoted shown}"⟩]
    | (.error _, _) => []
  A.edgeRecords state A.start w.edges ++ back ++ accepted

end Automaton

end Ramify
