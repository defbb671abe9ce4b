/-! Stacks that share their lower parts. Every push makes a new cell with an identity of
its own, and two stacks are the same when their top cells are. -/

namespace Ramify

structure Cell (α : Type) where
  id : Nat
  item : α

abbrev SharedStack (α : Type) := List (Cell α)

namespace SharedStack

variable {α : Type}

def empty : SharedStack α := []

def push (fresh : Nat) (s : SharedStack α) (a : α) : Nat × SharedStack α :=
  (fresh + 1, ⟨fresh, a⟩ :: s)

def pop? (s : SharedStack α) : Option (SharedStack α) := s.tail?

def popN? (s : SharedStack α) (n : Nat) : Option (SharedStack α) :=
  if s.length < n then none else some (s.drop n)

def peek? (s : SharedStack α) : Option α := s.head?.map Cell.item

def items (s : SharedStack α) : List α := s.map Cell.item

def topN (s : SharedStack α) (n : Nat) : List α := (s.items.take n).reverse

def same (s t : SharedStack α) : Bool := s.head?.map Cell.id == t.head?.map Cell.id

def text (item : α → String) (s : SharedStack α) : String :=
  "[" ++ ", ".intercalate (s.items.reverse.map item) ++ "]"

end SharedStack

end Ramify
